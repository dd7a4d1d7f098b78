import Pain.Manusya.HandlerSteps

/-!
# What the replies of the chunk service promise

Handlers interleave between their sections and inside them, and `QueryChunk`
reads a chunk without its mutex. This file proves what a client may conclude
from a reply nevertheless, on an in-memory store and as long as the chunk is not
removed: an append that was acknowledged can be read back by every later
request, later queries never report less than earlier ones, and a chunk that was
reported as sealed accepts nothing and keeps its size. A query may report a size
that is out of date together with the seal.

`Follows` is the assertion about a single handler from which all of it follows:
how what the handler has seen so far relates to the chunk as it is now.
-/

namespace Pain.Manusya

open Lib (Extent)

namespace Chunk

variable {H : Type}

/-- The bytes of an append that was acknowledged are in the file, where it put them. -/
theorem Exact.slice_of_mem {chunk : Chunk H} {inFlight : List (Extent UInt8)} {data : Bytes}
    (exactly : chunk.Exact inFlight data) {extent : Extent UInt8}
    (member : extent ∈ chunk.acknowledged) :
    extent.offset + extent.data.length ≤ data.length ∧
      (data.drop extent.offset).take extent.data.length = extent.data := by
  have length := exactly.length
  rcases exactly with ⟨order, perm, tiles, rfl⟩
  have place := tiles.slice (perm.mem_iff.mpr (List.mem_append_left _ member))
  simp only [length] at place
  simpa using place

/-- The call is one of the request. -/
def Calls (request : AppendChunkRequest) (call : ℕ) (chunk : Chunk H) : Prop :=
  ∃ promise, chunk.calls[call]? = some ⟨request.offset.toNat, request.attachment, promise⟩

/-- A call of the request has returned `OK`. -/
def Acknowledges (request : AppendChunkRequest) (chunk : Chunk H) : Prop :=
  ∃ call : ℕ, chunk.calls[call]? =
    some ⟨request.offset.toNat, request.attachment, .result Status.OK⟩

theorem Acknowledges.mem {request : AppendChunkRequest} {chunk : Chunk H}
    (acknowledges : chunk.Acknowledges request) :
    ⟨request.offset.toNat, request.attachment⟩ ∈ chunk.acknowledged := by
  rcases acknowledges with ⟨call, found⟩
  have member := List.mem_of_getElem? found
  simp only [acknowledged, List.mem_map, List.mem_filter]
  exact ⟨_, ⟨member, by simp [AppendCall.isAcknowledged]⟩, rfl⟩

/-- An append stays acknowledged. -/
theorem Acknowledges.grows {request : AppendChunkRequest} {chunk later : Chunk H}
    (grows : chunk.Grows later) (acknowledges : chunk.Acknowledges request) :
    later.Acknowledges request := by
  rcases acknowledges with ⟨call, found⟩
  rcases grows.evolves call _ found with ⟨promise, foundLater, stays⟩
  rw [stays (by simp)] at foundLater
  exact ⟨call, foundLater⟩

end Chunk

namespace Threads

/-- The bank's chunk with the identifier satisfies `holds`. -/
def Sees (uuid : UUID) (holds : Chunk Bytes → Prop) (threads : Threads MemStore Bytes) : Prop :=
  ∃ pointer chunk, threads.world.bank[uuid]? = some pointer ∧
    threads.world.chunks[pointer]? = some chunk ∧ holds chunk

variable {text : UUID.Text} {uuid : UUID} {threads next : Threads MemStore Bytes}
  {holds : Chunk Bytes → Prop}

/-- What stays true as a chunk grows stays true of the chunk in the bank. -/
theorem Sees.grows (sees : threads.Sees uuid holds) (grows : threads.Grows uuid next)
    (stable : ∀ {chunk later : Chunk Bytes}, chunk.Grows later → holds chunk → holds later) :
    next.Sees uuid holds := by
  rcases sees with ⟨pointer, chunk, inBank, present, chunkHolds⟩
  rcases grows.chunks pointer chunk present with ⟨later, laterPresent, grown⟩
  exact ⟨pointer, later, grows.bank pointer inBank, laterPresent, stable grown chunkHolds⟩

theorem Sees.of_bank (sees : threads.Sees uuid holds) {pointer : ℕ}
    (inBank : threads.world.bank[uuid]? = some pointer) {chunk : Chunk Bytes}
    (present : threads.world.chunks[pointer]? = some chunk) : holds chunk := by
  rcases sees with ⟨other, found, inBank', present', foundHolds⟩
  rw [inBank, Option.some.injEq] at inBank'
  subst inBank'
  rw [present, Option.some.injEq] at present'
  exact present' ▸ foundHolds

theorem Sees.not_missing (sees : threads.Sees uuid holds)
    (missing : threads.world.bank[uuid]? = none) : False := by
  rcases sees with ⟨pointer, chunk, inBank, -⟩
  rw [missing] at inBank
  cases inBank

/-- What an acknowledged request wrote is in the file of its chunk. -/
theorem OwnsFile.slice (owns : threads.OwnsFile text uuid) {pointer : ℕ} {chunk : Chunk Bytes}
    (inBank : threads.world.bank[uuid]? = some pointer)
    (present : threads.world.chunks[pointer]? = some chunk) {request : AppendChunkRequest}
    (acknowledges : chunk.Acknowledges request) :
    ∃ data, threads.world.store[chunk.fh]? = some data ∧ data.length = chunk.size ∧
      request.offset.toNat + request.attachment.length ≤ data.length ∧
      (data.drop request.offset.toNat).take request.attachment.length = request.attachment := by
  rcases owns.registered pointer inBank with ⟨same, samePresent, isChunk⟩
  rw [present, Option.some.injEq] at samePresent
  subst samePresent
  rcases (owns.kept pointer chunk present).backed isChunk with ⟨data, held, exactly⟩
  rcases exactly.slice_of_mem acknowledges.mem with ⟨inside, slice⟩
  exact ⟨data, held, exactly.length.symm, inside, slice⟩

end Threads

/-- The pointer that a handler has got from the bank. -/
def Phase.pointer? : Phase → Option ℕ
  | .found pointer | .inside pointer | .awaiting pointer _ | .returned pointer _
  | .sized pointer _ => some pointer
  | .received | .replied _ => none

namespace Server

/-- How what the handler of a request for the chunk has seen relates to the chunk as it is now. -/
def Follows (text : UUID.Text) (uuid : UUID) (threads : Threads MemStore Bytes) :
    ChunkRequest → Phase → Prop
  | .appendChunk request, .inside pointer =>
      threads.sections pointer = .draining request.attachment request.offset.toNat
  | .appendChunk request, .awaiting _ call => threads.Sees uuid (Chunk.Calls request call)
  | .appendChunk request, .returned _ (.ok _) => threads.Sees uuid (Chunk.Acknowledges request)
  | .appendChunk request, .replied (.appendChunk response) =>
      response.header = none →
        request.offset.toNat + request.attachment.length ≤ response.offset ∧
          threads.Sees uuid (fun chunk =>
            chunk.Acknowledges request ∧ response.offset ≤ chunk.size)
  | .readChunk request, .inside pointer =>
      threads.sections pointer = .reading (text.str uuid) request.offset.toNat
        request.length.toNat []
  | .queryAndSealChunk _, .inside pointer => threads.sections pointer = .sizing
  | .queryAndSealChunk _, .replied (.queryAndSealChunk response) =>
      response.header = none →
        threads.Sees uuid (fun chunk => chunk.state = .kSealed ∧ chunk.size = response.size)
  | .queryChunk _, .sized _ size => threads.Sees uuid (fun chunk => size ≤ chunk.size)
  | .queryChunk _, .replied (.queryChunk response) =>
      response.header = none →
        threads.Sees uuid (fun chunk => response.size ≤ chunk.size ∧
          (response.sealed = true → chunk.state = .kSealed))
  | _, _ => True

/-- The handler of a request for the chunk has its pointer, and `Follows`. -/
def Tracks (text : UUID.Text) (uuid : UUID) (threads : Threads MemStore Bytes)
    (handler : Handler) : Prop :=
  handler.request.chunkId? = some uuid →
    (∀ pointer, handler.phase.pointer? = some pointer →
      threads.world.bank[uuid]? = some pointer) ∧
      Follows text uuid threads handler.request handler.phase

section Assertions

variable {text : UUID.Text} {uuid : UUID} {threads next : Threads MemStore Bytes}
  {request : ChunkRequest} {phase after : Phase}

theorem acknowledges_grows {rq : AppendChunkRequest} {offset : ℕ} {chunk later : Chunk Bytes}
    (grows : chunk.Grows later) (holds : chunk.Acknowledges rq ∧ offset ≤ chunk.size) :
    later.Acknowledges rq ∧ offset ≤ later.size :=
  ⟨holds.1.grows grows, holds.2.trans grows.size⟩

theorem sealedAt_grows {size : ℕ} {chunk later : Chunk Bytes} (grows : chunk.Grows later)
    (holds : chunk.state = .kSealed ∧ chunk.size = size) :
    later.state = .kSealed ∧ later.size = size :=
  ⟨(grows.stays holds.1).1, (grows.stays holds.1).2.trans holds.2⟩

/-- Steps of others leave the assertion true. -/
theorem Follows.stays (grows : threads.Grows uuid next)
    (same : ∀ pointer, phase = .inside pointer →
      next.sections pointer = threads.sections pointer)
    (follows : Follows text uuid threads request phase) : Follows text uuid next request phase := by
  cases request with
  | createChunk | listChunk | removeChunk => trivial
  | appendChunk rq =>
      cases phase with
      | received | found | sized => trivial
      | inside pointer => exact (same pointer rfl).trans follows
      | awaiting pointer call =>
          refine follows.grows grows ?_
          rintro chunk later grown ⟨promise, found⟩
          rcases grown.evolves call _ found with ⟨promise', foundLater, -⟩
          exact ⟨promise', foundLater⟩
      | returned pointer status =>
          cases status with
          | error failure => trivial
          | ok done => exact follows.grows grows (fun grown holds => holds.grows grown)
      | replied reply =>
          cases reply with
          | appendChunk response =>
              intro ok
              exact ⟨(follows ok).1, (follows ok).2.grows grows acknowledges_grows⟩
          | _ => trivial
  | readChunk rq =>
      cases phase with
      | inside pointer => exact (same pointer rfl).trans follows
      | _ => trivial
  | queryAndSealChunk chunkId =>
      cases phase with
      | inside pointer => exact (same pointer rfl).trans follows
      | replied reply =>
          cases reply with
          | queryAndSealChunk response =>
              exact fun ok => (follows ok).grows grows sealedAt_grows
          | _ => trivial
      | _ => trivial
  | queryChunk chunkId =>
      cases phase with
      | sized pointer size =>
          exact follows.grows grows (fun grown holds => holds.trans grown.size)
      | replied reply =>
          cases reply with
          | queryChunk response =>
              intro ok
              refine (follows ok).grows grows ?_
              intro chunk later grown holds
              exact ⟨holds.1.trans grown.size, fun isSealed => (grown.stays (holds.2 isSealed)).1⟩
          | _ => trivial
      | _ => trivial

theorem calls_of_returned {rq : AppendChunkRequest} {chunk returned : Chunk Bytes}
    {files later : MemStore}
    (entered : chunk.beginAppend MemStore.store rq.attachment rq.offset.toNat files =
      .returned returned later) : returned.Calls rq chunk.calls.length := by
  have spec := chunk.beginAppend_spec MemStore.store rq.attachment rq.offset.toNat files
  rw [entered] at spec
  cases spec with
  | refused => exact ⟨_, by simp [Chunk.answer]; rfl⟩
  | queued => exact ⟨_, by simp [Chunk.enqueue]; rfl⟩
  | failed => exact ⟨_, by simp [Chunk.answer]; rfl⟩

/-- The holder of the mutex drains on, or its call returns and is acknowledged. -/
theorem follows_resumed {rq : AppendChunkRequest} {pointer : ℕ} {chunk : Chunk Bytes}
    (inBank : threads.world.bank[uuid]? = some pointer)
    (present : threads.world.chunks[pointer]? = some chunk)
    (held : threads.sections pointer = .draining rq.attachment rq.offset.toNat)
    (resumed : threads.resume MemStore.store pointer chunk = some next) :
    Follows text uuid next (.appendChunk rq)
      (ManusyaServiceImpl.proceed pointer (.returned pointer Status.OK) next) := by
  simp only [Threads.resume, held] at resumed
  split at resumed
  · simp only [Option.some.injEq] at resumed
    subst resumed
    simp only [ManusyaServiceImpl.proceed, Threads.hold, Function.update_self]
    exact ⟨pointer, _, inBank, World.getElem?_put_self _ _ present,
      chunk.calls.length, by simp [Chunk.answer]⟩
  · simp only [Option.some.injEq] at resumed
    subst resumed
    simp only [ManusyaServiceImpl.proceed, held]
    exact held
  · cases resumed

/-- When `query_and_seal` returns a size, the chunk is sealed with it. -/
theorem sees_of_sealed (owns : threads.OwnsFile text uuid) {pointer size : ℕ}
    {chunk : Chunk Bytes} (inBank : threads.world.bank[uuid]? = some pointer)
    (present : threads.world.chunks[pointer]? = some chunk)
    (held : threads.sections pointer = .sizing)
    (sized : (MemStore.store.size chunk.fh threads.world.store).1 = .ok size)
    (resumed : threads.resume MemStore.store pointer chunk = some next) :
    next.Sees uuid (fun chunk => chunk.state = .kSealed ∧ chunk.size = size) := by
  rcases owns.registered pointer inBank with ⟨same, samePresent, isChunk⟩
  rw [present, Option.some.injEq] at samePresent
  subst samePresent
  rcases (owns.kept pointer chunk present).backed isChunk with ⟨data, contents, exactly⟩
  have length := MemStore.spec.size_ok contents sized
  simp only [Threads.resume, held] at resumed
  split at resumed
  · rename_i failure state failed
    rw [failed] at sized
    cases sized
  · simp only [Option.some.injEq] at resumed
    subst resumed
    exact ⟨pointer, _, inBank, World.getElem?_put_self _ _ present, rfl,
      exactly.length.trans length.symm⟩

/-- The step of the handler makes its assertion true. -/
theorem follows_of_handled (owns : threads.OwnsFile text uuid) (grows : threads.Grows uuid next)
    (about : request.chunkId? = some uuid)
    (located : ∀ pointer, phase.pointer? = some pointer →
      threads.world.bank[uuid]? = some pointer)
    (follows : Follows text uuid threads request phase)
    (handled : ManusyaServiceImpl.Handled MemStore.store text threads request phase next after) :
    Follows text uuid next request after := by
  cases handled with
  | idle => exact follows
  | created | listed | removed | readFailed | sealFailed | readNot | read => trivial
  | located => cases request <;> trivial
  | missing about' absent =>
      cases request <;> first | trivial | exact fun ok => absurd ok (by simp)
  | appendFailed => exact fun ok => absurd ok (by simp)
  | sizeFailed => exact fun ok => absurd ok (by simp)
  | appendReturned available entered =>
      have present := (Threads.free_of_available available).2
      exact ⟨_, _, located _ rfl, World.getElem?_put_self _ _ present, calls_of_returned entered⟩
  | appendEntered available entered => exact Function.update_self _ _ _
  | appendResumed present resumed =>
      exact follows_resumed (located _ rfl) present follows resumed
  | @appendSettled rq pointer call offset chunk buf status present settled =>
      cases status with
      | error failure => trivial
      | ok done =>
          rcases follows.of_bank (located _ rfl) present with ⟨promise, found⟩
          rw [settled] at found
          simp only [Option.some.injEq, AppendCall.mk.injEq] at found
          rcases found with ⟨rfl, rfl, -⟩
          exact ⟨pointer, chunk, located _ rfl, present, call, settled⟩
  | @appended rq pointer chunk present =>
      intro _
      have acknowledges := follows.of_bank (located _ rfl) present
      rcases owns.slice (located _ rfl) present acknowledges with ⟨data, -, length, inside, -⟩
      exact ⟨inside.trans length.le, pointer, chunk, located _ rfl, present, acknowledges, le_rfl⟩
  | @readEntered rq pointer chunk fh available inside opens =>
      have present := (Threads.free_of_available available).2
      rcases owns.registered pointer (located _ rfl) with ⟨same, samePresent, isChunk⟩
      rw [present, Option.some.injEq] at samePresent
      subst samePresent
      have handle := MemStore.openFile_handle (Prod.ext opens rfl)
      rw [isChunk] at handle
      subst handle
      exact Function.update_self _ _ _
  | sealEntered available done => exact Function.update_self _ _ _
  | sealedAt present sized resumed =>
      exact fun _ => sees_of_sealed owns (located _ rfl) present follows sized resumed
  | @sized _ pointer chunk present => exact ⟨pointer, chunk, located _ rfl, present, le_rfl⟩
  | @queried _ pointer size chunk present =>
      intro _
      refine ⟨pointer, chunk, located _ rfl, present, follows.of_bank (located _ rfl) present, ?_⟩
      simp

/-- A handler works on the chunk of its identifier. -/
theorem located_of_handled (grows : threads.Grows uuid next)
    (about : request.chunkId? = some uuid)
    (located : ∀ pointer, phase.pointer? = some pointer →
      threads.world.bank[uuid]? = some pointer)
    (handled : ManusyaServiceImpl.Handled MemStore.store text threads request phase next after)
    (pointer : ℕ) (isPointer : after.pointer? = some pointer) :
    next.world.bank[uuid]? = some pointer := by
  cases handled with
  | idle => exact grows.bank pointer (located pointer isPointer)
  | located about' present =>
      rw [about, Option.some.injEq] at about'
      simp only [Phase.pointer?, Option.some.injEq] at isPointer
      exact about' ▸ isPointer ▸ present
  | @appendResumed rq entered _ _ present resumed =>
      have same : entered = pointer := by
        unfold ManusyaServiceImpl.proceed at isPointer
        split at isPointer <;> simpa [Phase.pointer?] using isPointer
      exact grows.bank pointer (located pointer (same ▸ rfl))
  | appendReturned | appendEntered | appendSettled | readEntered | sealEntered | sized =>
      exact grows.bank pointer (located pointer isPointer)
  | _ => simp [Phase.pointer?] at isPointer

/-- What `Follows` adds about handlers that arrive once `fact` is true of the chunk objects. -/
structure Lasting (text : UUID.Text) (uuid : UUID) (fact : Threads MemStore Bytes → Prop)
    (extra : Threads MemStore Bytes → ChunkRequest → Phase → Prop) : Prop where
  stable : ∀ {threads next}, threads.Grows uuid next → fact threads → fact next
  received : ∀ {threads} request, extra threads request .received
  stays : ∀ {threads next request phase}, threads.Grows uuid next → extra threads request phase →
    extra next request phase
  own : ∀ {threads next request phase after}, threads.OwnsFile text uuid →
    threads.Grows uuid next → fact threads → request.chunkId? = some uuid →
      (∀ pointer, phase.pointer? = some pointer → threads.world.bank[uuid]? = some pointer) →
        Follows text uuid threads request phase → extra threads request phase →
          ManusyaServiceImpl.Handled MemStore.store text threads request phase next after →
            extra next request after

/-- A lasting fact and what it entails are assertions of the pool of handlers. -/
theorem Lasting.asserts {fact : Threads MemStore Bytes → Prop}
    {extra : Threads MemStore Bytes → ChunkRequest → Phase → Prop}
    (lasting : Lasting text uuid fact extra) :
    Lib.Pool.Asserts (program MemStore.store text) locking (Threads.OwnsFile text uuid)
      (Threads.Grows uuid) fact (fun threads handler => Tracks text uuid threads handler ∧
        (handler.request.chunkId? = some uuid →
          extra threads handler.request handler.phase)) where
  stable := fun _ _ grows => lasting.stable grows
  fresh := by
    intro threads request _ _
    refine ⟨fun _ => ⟨by simp [program, Phase.pointer?], ?_⟩, fun _ => lasting.received request⟩
    cases request <;> trivial
  own := by
    intro drawn threads handler next after owns _ grows holds tracked handled
    simp only [program, Option.map_eq_some_iff, Prod.mk.injEq] at handled
    rcases handled with ⟨⟨moved, phase⟩, ran, rfl, rfl⟩
    have cases := ManusyaServiceImpl.handle_handled ran
    refine ⟨fun about => ?_, fun about => ?_⟩
    · rcases tracked.1 about with ⟨located, follows⟩
      exact ⟨located_of_handled grows about located cases,
        follows_of_handled owns grows about located follows cases⟩
    · rcases tracked.1 about with ⟨located, follows⟩
      exact lasting.own owns grows holds about located follows (tracked.2 about) cases
  others := by
    intro threads next handler _ _ grows _ same tracked
    refine ⟨fun about => ?_, fun about => lasting.stays grows (tracked.2 about)⟩
    rcases tracked.1 about with ⟨located, follows⟩
    exact ⟨fun pointer isPointer => grows.bank pointer (located pointer isPointer),
      follows.stays grows (fun pointer inside => (same pointer inside).1)⟩

theorem lasting_true (text : UUID.Text) (uuid : UUID) :
    Lasting text uuid (fun _ => True) (fun _ _ _ => True) where
  stable := fun _ _ => trivial
  received := fun _ => trivial
  stays := fun _ _ => trivial
  own := fun _ _ _ _ _ _ _ _ => trivial

/-- At the end of every run all handlers are tracked. -/
theorem run_tracks {events : List Event} {server : Server MemStore Bytes}
    (ran : (initial ∅).run MemStore.store text events = some server)
    (spares : Spares uuid events) :
    Orderly text uuid server ∧ ∀ (index : ℕ) (handler : Handler),
      server.members[index]? = some handler → Tracks text uuid server.shared handler := by
  rcases (discipline text uuid).exec_asserts (lasting_true text uuid).asserts
    (initial_orderly text uuid) trivial (by simp [initial]) spares.admits ran with ⟨orderly, -, met⟩
  exact ⟨orderly, fun index handler found => (met index handler (Nat.zero_le index) found).1⟩

/-- Whatever happens from now on without a removal of the chunk, every reply to such a request that
arrives from now on is as `expected`. It is about the replies that are sent, not about when. -/
def Henceforth (text : UUID.Text) (uuid : UUID) (server : Server MemStore Bytes)
    (request : ChunkRequest) (expected : ChunkReply → Prop) : Prop :=
  ∀ (later : List Event) (final : Server MemStore Bytes), Spares uuid later →
    server.run MemStore.store text later = some final → ∀ (index : ℕ) (reply : ChunkReply),
      server.members.length ≤ index → final.Answered index request reply → expected reply

/-- The fact stays true, and all handlers that arrive from now on meet what it entails. -/
theorem Lasting.of_run {fact : Threads MemStore Bytes → Prop}
    {extra : Threads MemStore Bytes → ChunkRequest → Phase → Prop}
    (lasting : Lasting text uuid fact extra) {server final : Server MemStore Bytes}
    (orderly : Orderly text uuid server) (holds : fact server.shared) {later : List Event}
    (spares : Spares uuid later) (ran : server.run MemStore.store text later = some final) :
    fact final.shared ∧ ∀ (index : ℕ) (handler : Handler), server.members.length ≤ index →
      final.members[index]? = some handler → handler.request.chunkId? = some uuid →
        extra final.shared handler.request handler.phase := by
  have none : ∀ (index : ℕ) (handler : Handler), server.members.length ≤ index →
      server.members[index]? = some handler → Tracks text uuid server.shared handler ∧
        (handler.request.chunkId? = some uuid →
          extra server.shared handler.request handler.phase) := by
    intro index handler behind found
    rw [List.getElem?_eq_none behind] at found
    cases found
  rcases (discipline text uuid).exec_asserts lasting.asserts orderly holds none spares.admits ran
    with ⟨-, stillHolds, met⟩
  exact ⟨stillHolds, fun index handler arrived found => (met index handler arrived found).2⟩

/-- What a lasting fact entails for a reply holds of every reply that comes later. -/
theorem Lasting.henceforth {fact : Threads MemStore Bytes → Prop}
    {extra : Threads MemStore Bytes → ChunkRequest → Phase → Prop}
    (lasting : Lasting text uuid fact extra) {server : Server MemStore Bytes}
    (orderly : Orderly text uuid server) (holds : fact server.shared)
    (about : request.chunkId? = some uuid) {expected : ChunkReply → Prop}
    (concludes : ∀ threads reply, extra threads request (.replied reply) → expected reply) :
    Henceforth text uuid server request expected := by
  intro later final spares ran index reply arrived answered
  have met := (lasting.of_run orderly holds spares ran).2
  exact concludes _ reply (met index _ arrived answered about)

end Assertions

section Promises

variable {text : UUID.Text} {uuid : UUID}

/-- The part of the attachment that a read asks for. -/
def part (appended : AppendChunkRequest) (read : ReadChunkRequest) : Bytes :=
  (appended.attachment.drop (read.offset.toNat - appended.offset.toNat)).take read.length.toNat

/-- The read asks for bytes of the attachment only. -/
def Within (appended : AppendChunkRequest) (read : ReadChunkRequest) : Prop :=
  appended.offset.toNat ≤ read.offset.toNat ∧
    read.offset.toNat + read.length.toNat ≤
      appended.offset.toNat + appended.attachment.length

instance (appended : AppendChunkRequest) (read : ReadChunkRequest) :
    Decidable (Within appended read) :=
  inferInstanceAs (Decidable (_ ∧ _))

/-- The read lies within the append, so its bytes are part of those appended. -/
theorem Within.eq_part {appended : AppendChunkRequest} {read : ReadChunkRequest} {data : Bytes}
    (within : Within appended read)
    (slice : (data.drop appended.offset.toNat).take appended.attachment.length =
      appended.attachment) :
    (data.drop read.offset.toNat).take read.length.toNat = part appended read := by
  have inside := within.2
  have behind := within.1
  have same : appended.offset.toNat + (read.offset.toNat - appended.offset.toNat) =
      read.offset.toNat := by omega
  have shorter : read.length.toNat ≤
      appended.attachment.length - (read.offset.toNat - appended.offset.toNat) := by omega
  calc (data.drop read.offset.toNat).take read.length.toNat
      = (((data.drop appended.offset.toNat).take appended.attachment.length).drop
          (read.offset.toNat - appended.offset.toNat)).take read.length.toNat := by
        rw [List.drop_take, List.drop_drop, List.take_take, same, Nat.min_eq_left shorter]
    _ = part appended read := by rw [slice, part]

/-- A read within the attachment is answered with its bytes. -/
def ReadsBack (appended : AppendChunkRequest) : ChunkRequest → Phase → Prop
  | .readChunk read, .replied reply =>
      Within appended read → reply = .readChunk { attachment := part appended read }
  | _, _ => True

/-- A read within the size of the chunk fails none of the checks. -/
theorem readFails_none {chunk : Chunk Bytes} {files : MemStore} {data : Bytes}
    {offset size : UInt64} (inside : offset.toNat + size.toNat ≤ chunk.size)
    (held : files[text.str chunk.uuid]? = some data) :
    ManusyaServiceImpl.readFails MemStore.store text offset size chunk files = none := by
  have notBeyond := Nat.not_lt.mpr (Chunk.sum_le_of_le inside)
  simp [-UInt64.toNat_add, ManusyaServiceImpl.readFails, notBeyond, MemStore.store,
    MemStore.openFile, OpenFlags.rdonly, held]

/-- What a read of acknowledged bytes replies. -/
theorem reply_of_read {threads next : Threads MemStore Bytes} {appended : AppendChunkRequest}
    {read : ReadChunkRequest} {phase : Phase} {reply : ChunkReply}
    (owns : threads.OwnsFile text uuid) (holds : threads.Sees uuid (Chunk.Acknowledges appended))
    (isUuid : read.chunkId = uuid)
    (located : ∀ pointer, phase.pointer? = some pointer →
      threads.world.bank[uuid]? = some pointer)
    (follows : Follows text uuid threads (.readChunk read) phase)
    (before : ReadsBack appended (.readChunk read) phase)
    (handled : ManusyaServiceImpl.Handled MemStore.store text threads (.readChunk read) phase next
      (.replied reply)) (within : Within appended read) :
    reply = .readChunk { attachment := part appended read } := by
  cases handled with
  | idle => exact before within
  | missing about absent =>
      simp only [ChunkRequest.chunkId?, isUuid, Option.some.injEq] at about
      exact (holds.not_missing (about ▸ absent)).elim
  | @readFailed _ pointer chunk failure available fails =>
      have present := (Threads.free_of_available available).2
      have inBank := located pointer rfl
      rcases owns.slice inBank present (holds.of_bank inBank present) with
        ⟨data, held, length, appendedInside, -⟩
      rw [(owns.kept pointer chunk present).named] at held
      have inside : read.offset.toNat + read.length.toUInt64.toNat ≤ chunk.size := by
        rw [UInt32.toNat_toUInt64, ← length]
        exact within.2.trans appendedInside
      rw [readFails_none inside held] at fails
      cases fails
  | readNot present held fails => cases fails
  | @read _ pointer chunk fh offset size buf bytes present held reads =>
      have inBank := located pointer rfl
      rcases owns.slice inBank present (holds.of_bank inBank present) with
        ⟨data, contents, -, -, slice⟩
      have isReading : threads.sections pointer = .reading (text.str uuid) read.offset.toNat
        read.length.toNat [] := follows
      rw [held] at isReading
      simp only [Section.reading.injEq] at isReading
      rcases isReading with ⟨rfl, rfl, rfl, rfl⟩
      rcases owns.registered pointer inBank with ⟨same, samePresent, isChunk⟩
      rw [present, Option.some.injEq] at samePresent
      subst samePresent
      rw [(owns.kept pointer chunk present).named, isChunk] at contents
      simp only [MemStore.store, MemStore.read, MemStore.subscript_of_mem contents,
        List.nil_append, Except.ok.injEq] at reads
      rw [← reads, within.eq_part slice]

/-- From an acknowledged append on, all reads within it give its bytes. -/
theorem lasting_readsBack (text : UUID.Text) (uuid : UUID) (appended : AppendChunkRequest) :
    Lasting text uuid (fun threads => threads.Sees uuid (Chunk.Acknowledges appended))
      (fun _ => ReadsBack appended) where
  stable := fun grows holds => holds.grows grows (fun grown holds => holds.grows grown)
  received := by
    intro threads request
    cases request <;> trivial
  stays := fun _ => id
  own := by
    intro threads next request phase after owns _ holds about located follows before handled
    cases request with
    | readChunk read =>
        cases after with
        | replied reply =>
            simp only [ChunkRequest.chunkId?, Option.some.injEq] at about
            exact reply_of_read owns holds about located follows before handled
        | _ => trivial
    | _ => trivial

/-- A query reports at least the size. -/
def ReportsAtLeast (size : ℕ) : ChunkRequest → Phase → Prop
  | .queryChunk _, .sized _ seen => size ≤ seen
  | .queryChunk _, .replied reply =>
      ∃ response, reply = .queryChunk response ∧ response.header = none ∧ size ≤ response.size
  | _, _ => True

/-- A size that the chunk has reached is reported from then on. -/
theorem lasting_reportsAtLeast (text : UUID.Text) (uuid : UUID) (size : ℕ) :
    Lasting text uuid (fun threads => threads.Sees uuid (fun chunk => size ≤ chunk.size))
      (fun _ => ReportsAtLeast size) where
  stable := fun grows holds => holds.grows grows (fun grown holds => holds.trans grown.size)
  received := by
    intro threads request
    cases request <;> trivial
  stays := fun _ => id
  own := by
    intro threads next request phase after owns _ holds about located follows before handled
    cases request with
    | queryChunk chunkId =>
        cases handled with
        | idle => exact before
        | missing about' absent =>
            rw [about, Option.some.injEq] at about'
            exact (holds.not_missing (about' ▸ absent)).elim
        | located => trivial
        | sized present => exact holds.of_bank (located _ rfl) present
        | queried present => exact ⟨_, rfl, rfl, before⟩
    | _ => trivial

/-- What an append to a sealed chunk is answered with. -/
def chunkIsSealed : Failure := ⟨.EPERM, "chunk is sealed"⟩

/-- The chunk is sealed with the size: appends are refused, and queries report it. -/
def Settled (uuid : UUID) (size : ℕ) (threads : Threads MemStore Bytes) :
    ChunkRequest → Phase → Prop
  | .appendChunk _, .inside _ => False
  | .appendChunk _, .awaiting _ call => threads.Sees uuid (fun chunk =>
      ∃ offset buf, chunk.calls[call]? = some ⟨offset, buf, .result (.error chunkIsSealed)⟩)
  | .appendChunk _, .returned _ status => status = .error chunkIsSealed
  | .appendChunk _, .replied reply =>
      reply = .appendChunk { header := ManusyaServiceImpl.setHeader chunkIsSealed }
  | .queryAndSealChunk _, .replied reply => reply = .queryAndSealChunk { size := size }
  | .queryChunk _, .sized _ seen => seen = size
  | .queryChunk _, .replied reply => reply = .queryChunk { size := size, sealed := true }
  | _, _ => True

/-- A sealed chunk refuses the append at once. -/
theorem beginAppend_of_sealed {chunk : Chunk Bytes} (isSealed : chunk.state = .kSealed)
    (buf : Bytes) (offset : ℕ) (files : MemStore) :
    chunk.beginAppend MemStore.store buf offset files =
      .returned (chunk.answer offset buf (.error chunkIsSealed)) files := by
  simp only [Chunk.beginAppend, isSealed, if_true]
  rfl

theorem Settled.stays {size : ℕ} {threads next : Threads MemStore Bytes} {request : ChunkRequest}
    {phase : Phase} (grows : threads.Grows uuid next)
    (settled : Settled uuid size threads request phase) : Settled uuid size next request phase := by
  cases request with
  | appendChunk rq =>
      cases phase with
      | awaiting pointer call =>
          refine settled.grows grows ?_
          rintro chunk later grown ⟨offset, buf, found⟩
          rcases grown.evolves call _ found with ⟨promise, foundLater, stays⟩
          rw [stays (by simp)] at foundLater
          exact ⟨offset, buf, foundLater⟩
      | _ => exact settled
  | queryAndSealChunk chunkId => cases phase <;> exact settled
  | queryChunk chunkId => cases phase <;> exact settled
  | _ => trivial

/-- A sealed chunk is settled from then on. -/
theorem lasting_settled (text : UUID.Text) (uuid : UUID) (size : ℕ) :
    Lasting text uuid
      (fun threads => threads.Sees uuid (fun chunk => chunk.state = .kSealed ∧ chunk.size = size))
      (Settled uuid size) where
  stable := fun grows holds => holds.grows grows sealedAt_grows
  received := by
    intro threads request
    cases request <;> trivial
  stays := Settled.stays
  own := by
    intro threads next request phase after owns grows holds about located follows before handled
    cases handled with
    | idle => exact before
    | missing about' absent =>
        rw [about, Option.some.injEq] at about'
        exact (holds.not_missing (about' ▸ absent)).elim
    | located => cases request <;> trivial
    | created | listed | removed | readFailed | readEntered | readNot | read | sealEntered =>
        trivial
    | @appendReturned rq pointer chunk returned files available entered =>
        have present := (Threads.free_of_available available).2
        have isSealed := (holds.of_bank (located _ rfl) present).1
        rw [beginAppend_of_sealed isSealed] at entered
        simp only [Chunk.AppendEntry.returned.injEq] at entered
        rcases entered with ⟨rfl, rfl⟩
        exact ⟨pointer, _, located _ rfl, World.getElem?_put_self _ _ present,
          rq.offset.toNat, rq.attachment, by simp [Chunk.answer]⟩
    | appendEntered available entered =>
        have present := (Threads.free_of_available available).2
        have isSealed := (holds.of_bank (located _ rfl) present).1
        rw [beginAppend_of_sealed isSealed] at entered
        cases entered
    | appendResumed => exact before.elim
    | appendSettled present settled =>
        rcases before.of_bank (located _ rfl) present with ⟨offset, buf, found⟩
        rw [settled] at found
        simp only [Option.some.injEq, AppendCall.mk.injEq, FutureState.result.injEq] at found
        exact found.2.2
    | appendFailed =>
        simp only [Settled, Except.error.injEq] at before
        simp only [Settled, before]
    | appended present => cases before
    | sealFailed available fails => cases fails
    | sizeFailed present fails => cases fails
    | sealedAt present sized resumed =>
        rcases sees_of_sealed owns (located _ rfl) present follows sized resumed with
          ⟨pointer, chunk, inBank, presentNext, -, reported⟩
        have stays := (holds.grows grows sealedAt_grows).of_bank inBank presentNext
        simp only [Settled, ← reported, stays.2]
    | sized present => exact (holds.of_bank (located _ rfl) present).2
    | queried present =>
        have isSealed := (holds.of_bank (located _ rfl) present).1
        simp only [Settled] at before
        simp only [Settled, before, isSealed, decide_true]

/-- Read your writes. When `AppendChunk` has been answered without an error, the new offset lies
behind the attachment, and whatever the handlers do afterwards, every reply to a `ReadChunk` of a
part of the attachment that arrives later is exactly that part, and every reply to a later
`QueryChunk` reports at least the offset, as long as the chunk is not removed. -/
theorem append_reads_back (text : UUID.Text) (events : List Event) (server : Server MemStore Bytes)
    (ran : (initial ∅).run MemStore.store text events = some server) (index : ℕ)
    (appended : AppendChunkRequest) (response : AppendChunkResponse)
    (spares : Spares appended.chunkId events)
    (answered : server.Answered index (.appendChunk appended) (.appendChunk response))
    (ok : response.header = none) :
    appended.offset.toNat + appended.attachment.length ≤ response.offset ∧
      (∀ read : ReadChunkRequest, read.chunkId = appended.chunkId → Within appended read →
        Henceforth text appended.chunkId server (.readChunk read)
          (fun reply => reply = .readChunk { attachment := part appended read })) ∧
      Henceforth text appended.chunkId server (.queryChunk appended.chunkId)
        (fun reply => ∃ later, reply = .queryChunk later ∧ later.header = none ∧
          response.offset ≤ later.size) := by
  rcases run_tracks ran spares with ⟨orderly, tracked⟩
  rcases (tracked index _ answered rfl).2 ok with ⟨inside, sees⟩
  refine ⟨inside, ?_, ?_⟩
  · intro read sameChunk within
    have acknowledges : server.shared.Sees appended.chunkId (Chunk.Acknowledges appended) :=
      sees.imp fun pointer => Exists.imp fun chunk => And.imp_right (And.imp_right And.left)
    have about : (ChunkRequest.readChunk read).chunkId? = some appended.chunkId :=
      congrArg some sameChunk
    exact (lasting_readsBack text appended.chunkId appended).henceforth orderly acknowledges about
      (fun threads reply expected => expected within)
  · have reaches : server.shared.Sees appended.chunkId
        (fun chunk => response.offset ≤ chunk.size) :=
      sees.imp fun pointer => Exists.imp fun chunk => And.imp_right (And.imp_right And.right)
    exact (lasting_reportsAtLeast text appended.chunkId response.offset).henceforth orderly reaches
      rfl (fun threads reply expected => expected)

/-- Two bytes are appended behind a query that has read the size before. -/
def appendBehindQuery : List Event :=
  [.arrive .createChunk, .advance 0 ⟨0, 1⟩, .arrive (.queryChunk ⟨0, 1⟩), .advance 1 ⟨0, 0⟩,
    .advance 1 ⟨0, 0⟩, .arrive (.appendChunk ⟨⟨0, 1⟩, 0, [1, 2]⟩), .advance 2 ⟨0, 0⟩,
    .advance 2 ⟨0, 0⟩, .advance 2 ⟨0, 0⟩, .advance 2 ⟨0, 0⟩]

/-- A read of the second byte. -/
def readBehindAppend : List Event :=
  [.arrive (.readChunk ⟨⟨0, 1⟩, 1, 1⟩), .advance 3 ⟨0, 0⟩, .advance 3 ⟨0, 0⟩, .advance 3 ⟨0, 0⟩]

/-- The second of the two bytes is read back, and a read that comes next is answered with it. -/
theorem append_reads_back_two_bytes :
    ∃ server final : Server MemStore Bytes,
      (initial ∅).run MemStore.store .canonical appendBehindQuery = some server ∧
        server.Answered 2 (.appendChunk ⟨⟨0, 1⟩, 0, [1, 2]⟩) (.appendChunk { offset := 2 }) ∧
        Henceforth .canonical ⟨0, 1⟩ server (.readChunk ⟨⟨0, 1⟩, 1, 1⟩)
          (fun reply => reply = .readChunk { attachment := [2] }) ∧
        server.run MemStore.store .canonical readBehindAppend = some final ∧
        final.Answered 3 (.readChunk ⟨⟨0, 1⟩, 1, 1⟩) (.readChunk { attachment := [2] }) := by
  have answered : ((initial ∅).run MemStore.store .canonical appendBehindQuery).bind
      (fun server => (server.run MemStore.store .canonical readBehindAppend).map
        (fun final => (server.members[2]?, final.members[3]?))) =
      some (some ⟨.appendChunk ⟨⟨0, 1⟩, 0, [1, 2]⟩, .replied (.appendChunk { offset := 2 })⟩,
        some ⟨.readChunk ⟨⟨0, 1⟩, 1, 1⟩, .replied (.readChunk { attachment := [2] })⟩) := by
    decide
  rcases Option.bind_eq_some_iff.mp answered with ⟨server, ran, later⟩
  rcases Option.map_eq_some_iff.mp later with ⟨final, ranLater, both⟩
  rcases Prod.mk.inj both with ⟨found, foundLater⟩
  refine ⟨server, final, ran, found, ?_, ranLater, foundLater⟩
  exact (append_reads_back .canonical appendBehindQuery server ran 2 _ _ (by decide) found rfl).2.1
    ⟨⟨0, 1⟩, 1, 1⟩ rfl (by decide)

/-- Queries go forward. When `QueryChunk` has been answered without an error, every reply to a later
`QueryChunk` reports at least its size. When it has reported the seal, there is one size, which may
be larger than the one it reported, that every reply to a later `QueryChunk` reports together with
the seal, and every reply to a later `AppendChunk` refuses it. -/
theorem query_goes_forward (text : UUID.Text) (events : List Event)
    (server : Server MemStore Bytes)
    (ran : (initial ∅).run MemStore.store text events = some server) (index : ℕ) (chunkId : UUID)
    (response : QueryChunkResponse) (spares : Spares chunkId events)
    (answered : server.Answered index (.queryChunk chunkId) (.queryChunk response))
    (ok : response.header = none) :
    Henceforth text chunkId server (.queryChunk chunkId)
        (fun reply => ∃ later, reply = .queryChunk later ∧ later.header = none ∧
          response.size ≤ later.size) ∧
      (response.sealed = true → ∃ size, response.size ≤ size ∧
        Henceforth text chunkId server (.queryChunk chunkId)
          (fun reply => reply = .queryChunk { size := size, sealed := true }) ∧
        ∀ appended : AppendChunkRequest, appended.chunkId = chunkId →
          Henceforth text chunkId server (.appendChunk appended)
            (fun reply => reply =
              .appendChunk { header := ManusyaServiceImpl.setHeader chunkIsSealed })) := by
  rcases run_tracks ran spares with ⟨orderly, tracked⟩
  have sees := (tracked index _ answered rfl).2 ok
  refine ⟨?_, ?_⟩
  · have reaches : server.shared.Sees chunkId (fun chunk => response.size ≤ chunk.size) :=
      sees.imp fun pointer => Exists.imp fun chunk => And.imp_right (And.imp_right And.left)
    exact (lasting_reportsAtLeast text chunkId response.size).henceforth orderly reaches rfl
      (fun threads reply expected => expected)
  · intro isSealed
    rcases sees with ⟨pointer, chunk, inBank, present, reached, sealedBefore⟩
    have settled : server.shared.Sees chunkId
        (fun other => other.state = .kSealed ∧ other.size = chunk.size) :=
      ⟨pointer, chunk, inBank, present, sealedBefore isSealed, rfl⟩
    have lasting := lasting_settled text chunkId chunk.size
    refine ⟨chunk.size, reached, ?_, ?_⟩
    · exact lasting.henceforth orderly settled rfl (fun threads reply expected => expected)
    · intro appended sameChunk
      have about : (ChunkRequest.appendChunk appended).chunkId? = some chunkId :=
        congrArg some sameChunk
      exact lasting.henceforth orderly settled about (fun threads reply expected => expected)

/-- The chunk is sealed behind the append, and the query reads the state after that. -/
def sealBehindQuery : List Event :=
  appendBehindQuery ++ [.arrive (.queryAndSealChunk ⟨0, 1⟩), .advance 3 ⟨0, 0⟩, .advance 3 ⟨0, 0⟩,
    .advance 3 ⟨0, 0⟩, .advance 1 ⟨0, 0⟩]

/-- The query reports the seal with a size of zero, although the chunk was sealed with two bytes. -/
theorem query_goes_forward_torn :
    ∃ server : Server MemStore Bytes,
      (initial ∅).run MemStore.store .canonical sealBehindQuery = some server ∧
        server.Answered 1 (.queryChunk ⟨0, 1⟩) (.queryChunk { size := 0, sealed := true }) ∧
        server.Answered 3 (.queryAndSealChunk ⟨0, 1⟩) (.queryAndSealChunk { size := 2 }) ∧
        ∃ size, 0 ≤ size ∧ Henceforth .canonical ⟨0, 1⟩ server (.queryChunk ⟨0, 1⟩)
          (fun reply => reply = .queryChunk { size := size, sealed := true }) := by
  have answered : ((initial ∅).run MemStore.store .canonical sealBehindQuery).map
      (fun server => (server.members[1]?, server.members[3]?)) = some
        (some ⟨.queryChunk ⟨0, 1⟩, .replied (.queryChunk { size := 0, sealed := true })⟩,
          some ⟨.queryAndSealChunk ⟨0, 1⟩, .replied (.queryAndSealChunk { size := 2 })⟩) := by
    decide
  rcases Option.map_eq_some_iff.mp answered with ⟨server, ran, both⟩
  rcases Prod.mk.inj both with ⟨found, sealedFound⟩
  have forward :=
    query_goes_forward .canonical sealBehindQuery server ran 1 _ _ (by decide) found rfl
  rcases forward.2 rfl with ⟨size, reached, queries, -⟩
  exact ⟨server, ran, found, sealedFound, size, reached, queries⟩

/-- Sealing settles a chunk. When `QueryAndSealChunk` has been answered with a size, every append
that was ever acknowledged lies within that size, whenever its reply is sent; every reply to a later
`AppendChunk` refuses it, and every reply to a later `QueryChunk` or `QueryAndSealChunk` reports the
size. -/
theorem seal_settles (text : UUID.Text) (events : List Event) (server : Server MemStore Bytes)
    (ran : (initial ∅).run MemStore.store text events = some server) (index : ℕ) (chunkId : UUID)
    (response : QueryAndSealChunkResponse) (spares : Spares chunkId events)
    (answered : server.Answered index (.queryAndSealChunk chunkId) (.queryAndSealChunk response))
    (ok : response.header = none) :
    (∀ (later : List Event) (final : Server MemStore Bytes), Spares chunkId later →
      server.run MemStore.store text later = some final →
        ∀ (other : ℕ) (appended : AppendChunkRequest) (acknowledged : AppendChunkResponse),
          appended.chunkId = chunkId → acknowledged.header = none →
            final.Answered other (.appendChunk appended) (.appendChunk acknowledged) →
              appended.offset.toNat + appended.attachment.length ≤ response.size) ∧
      (∀ appended : AppendChunkRequest, appended.chunkId = chunkId →
        Henceforth text chunkId server (.appendChunk appended)
          (fun reply => reply =
            .appendChunk { header := ManusyaServiceImpl.setHeader chunkIsSealed })) ∧
      Henceforth text chunkId server (.queryChunk chunkId)
        (fun reply => reply = .queryChunk { size := response.size, sealed := true }) ∧
      Henceforth text chunkId server (.queryAndSealChunk chunkId)
        (fun reply => reply = .queryAndSealChunk { size := response.size }) := by
  rcases run_tracks ran spares with ⟨orderly, tracked⟩
  have settled := (tracked index _ answered rfl).2 ok
  have lasting := lasting_settled text chunkId response.size
  refine ⟨?_, ?_, ?_, ?_⟩
  · intro later final sparesLater ranLater other appended acknowledged sameChunk okLater
      answeredLater
    have ranBoth : (initial ∅).run MemStore.store text (events ++ later) = some final := by
      simp only [run, Lib.exec_append, ran, Option.bind_some]
      exact ranLater
    have sparesBoth : Spares chunkId (events ++ later) :=
      fun member => (List.mem_append.mp member).elim spares sparesLater
    rcases run_tracks ranBoth sparesBoth with ⟨finalOrderly, finalTracked⟩
    rcases ((finalTracked other _ answeredLater (congrArg some sameChunk)).2 okLater).2 with
      ⟨pointer, chunk, inBank, present, acknowledges, -⟩
    have stays := (lasting.of_run orderly settled sparesLater ranLater).1.of_bank inBank present
    rcases finalOrderly.shared.slice inBank present acknowledges with ⟨data, -, length, inside, -⟩
    rw [length, stays.2] at inside
    exact inside
  · intro appended sameChunk
    have about : (ChunkRequest.appendChunk appended).chunkId? = some chunkId :=
      congrArg some sameChunk
    exact lasting.henceforth orderly settled about (fun threads reply expected => expected)
  · exact lasting.henceforth orderly settled rfl (fun threads reply expected => expected)
  · exact lasting.henceforth orderly settled rfl (fun threads reply expected => expected)

/-- An append waits beyond the end while the chunk is sealed. -/
def sealBeforeAppend : List Event :=
  [.arrive .createChunk, .advance 0 ⟨0, 1⟩, .arrive (.appendChunk ⟨⟨0, 1⟩, 5, [1, 2]⟩),
    .advance 1 ⟨0, 0⟩, .advance 1 ⟨0, 0⟩, .arrive (.queryAndSealChunk ⟨0, 1⟩), .advance 2 ⟨0, 0⟩,
    .advance 2 ⟨0, 0⟩, .advance 2 ⟨0, 0⟩]

/-- A query behind the seal. -/
def queryBehindSeal : List Event :=
  [.arrive (.queryChunk ⟨0, 1⟩), .advance 3 ⟨0, 0⟩, .advance 3 ⟨0, 0⟩, .advance 3 ⟨0, 0⟩]

/-- The waiting append is not written, the size stays `0`, and a query that comes next says so. -/
theorem seal_settles_waiting :
    ∃ server final : Server MemStore Bytes,
      (initial ∅).run MemStore.store .canonical sealBeforeAppend = some server ∧
        server.Answered 2 (.queryAndSealChunk ⟨0, 1⟩) (.queryAndSealChunk { size := 0 }) ∧
        Henceforth .canonical ⟨0, 1⟩ server (.queryChunk ⟨0, 1⟩)
          (fun reply => reply = .queryChunk { size := 0, sealed := true }) ∧
        server.run MemStore.store .canonical queryBehindSeal = some final ∧
        final.Answered 3 (.queryChunk ⟨0, 1⟩) (.queryChunk { size := 0, sealed := true }) := by
  have answered : ((initial ∅).run MemStore.store .canonical sealBeforeAppend).bind
      (fun server => (server.run MemStore.store .canonical queryBehindSeal).map
        (fun final => (server.members[2]?, final.members[3]?))) =
      some (some ⟨.queryAndSealChunk ⟨0, 1⟩, .replied (.queryAndSealChunk { size := 0 })⟩,
        some ⟨.queryChunk ⟨0, 1⟩, .replied (.queryChunk { size := 0, sealed := true })⟩) := by
    decide
  rcases Option.bind_eq_some_iff.mp answered with ⟨server, ran, later⟩
  rcases Option.map_eq_some_iff.mp later with ⟨final, ranLater, both⟩
  rcases Prod.mk.inj both with ⟨found, foundLater⟩
  refine ⟨server, final, ran, found, ?_, ranLater, foundLater⟩
  exact (seal_settles .canonical sealBeforeAppend server ran 2 _ _ (by decide) found rfl).2.2.1

end Promises

end Server

end Pain.Manusya
