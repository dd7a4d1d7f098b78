import Pain.Manusya.Handlers

/-!
# What the handlers of the chunk service can do

This file says once what one step of a handler can do, in the form in which the
later proofs use it: a step is one of the cases of `Handled`, and it respects
the mutexes of the chunks in the sense of a discipline. So no two handlers are
inside one chunk, no step changes a chunk that another handler is inside of, and
no run of the server aborts.
-/

namespace Pain.Manusya

/-- The chunk that a request is about. A created chunk has its identifier only from the handler,
and a listing is about the bank. -/
def ChunkRequest.chunkId? : ChunkRequest → Option UUID
  | .createChunk | .listChunk _ => none
  | .appendChunk request => some request.chunkId
  | .readChunk request => some request.chunkId
  | .queryAndSealChunk chunkId | .removeChunk chunkId | .queryChunk chunkId => some chunkId

namespace ManusyaServiceImpl

variable {σ H : Type}

/-- The reply to a request about a chunk that the bank does not have. -/
def missingReply : ChunkRequest → ChunkReply
  | .createChunk | .listChunk _ | .removeChunk _ | .queryAndSealChunk _ => .failed chunkNotFound
  | .appendChunk _ => .appendChunk { header := setHeader chunkNotFound }
  | .readChunk _ => .readChunk { header := setHeader chunkNotFound }
  | .queryChunk _ => .queryChunk { header := setHeader chunkNotFound }

/-- What a step of a handler can do: to the chunk objects, and to how far it is. A step in which the
handler waits is `idle`. -/
inductive Handled (store : Store σ H) (text : UUID.Text) (threads : Threads σ H) :
    ChunkRequest → Phase → Threads σ H → Phase → Prop where
  | idle {request : ChunkRequest} {phase : Phase} :
      Handled store text threads request phase threads phase
  | created {drawn : UUID} {response : CreateChunkResponse} :
      Handled store text threads .createChunk .received
        { threads with world := (threads.world.createChunk store text .valid drawn).2 }
        (.replied (.createChunk response))
  | listed {request : ListChunkRequest} :
      Handled store text threads (.listChunk request) .received threads
        (.replied (.listChunk (listChunk text request threads.world {})))
  | removed {chunkId : UUID} {response : RemoveChunkResponse} :
      Handled store text threads (.removeChunk chunkId) .received
        { threads with world := (threads.world.removeChunk store text chunkId).2 }
        (.replied (.removeChunk response))
  | missing {request : ChunkRequest} {chunkId : UUID} (about : request.chunkId? = some chunkId)
      (absent : threads.world.bank[chunkId]? = none) :
      Handled store text threads request .received threads (.replied (missingReply request))
  | located {request : ChunkRequest} {chunkId : UUID} {pointer : ℕ}
      (about : request.chunkId? = some chunkId)
      (present : threads.world.bank[chunkId]? = some pointer) :
      Handled store text threads request .received threads (.found pointer)
  | appendReturned {request : AppendChunkRequest} {pointer : ℕ} {chunk next : Chunk H} {state : σ}
      (available : threads.available pointer = some chunk)
      (entered : chunk.beginAppend store request.attachment request.offset.toNat
        threads.world.store = .returned next state) :
      Handled store text threads (.appendChunk request) (.found pointer)
        { threads with world := threads.world.put pointer next state }
        (.awaiting pointer chunk.calls.length)
  | appendEntered {request : AppendChunkRequest} {pointer : ℕ} {chunk next : Chunk H} {state : σ}
      (available : threads.available pointer = some chunk)
      (entered : chunk.beginAppend store request.attachment request.offset.toNat
        threads.world.store = .draining next state) :
      Handled store text threads (.appendChunk request) (.found pointer)
        (threads.hold pointer (.draining request.attachment request.offset.toNat)
          (threads.world.put pointer next state))
        (.inside pointer)
  | appendResumed {request : AppendChunkRequest} {pointer : ℕ} {chunk : Chunk H}
      {next : Threads σ H} (present : threads.world.chunks[pointer]? = some chunk)
      (resumed : threads.resume store pointer chunk = some next) :
      Handled store text threads (.appendChunk request) (.inside pointer) next
        (proceed pointer (.returned pointer Status.OK) next)
  | appendSettled {request : AppendChunkRequest} {pointer call offset : ℕ} {chunk : Chunk H}
      {buf : Bytes} {status : Status} (present : threads.world.chunks[pointer]? = some chunk)
      (settled : chunk.calls[call]? = some ⟨offset, buf, .result status⟩) :
      Handled store text threads (.appendChunk request) (.awaiting pointer call) threads
        (.returned pointer status)
  | appendFailed {request : AppendChunkRequest} {pointer : ℕ} {failure : Failure} :
      Handled store text threads (.appendChunk request) (.returned pointer (.error failure)) threads
        (.replied (.appendChunk { header := setHeader failure }))
  | appended {request : AppendChunkRequest} {pointer : ℕ} {chunk : Chunk H}
      (present : threads.world.chunks[pointer]? = some chunk) :
      Handled store text threads (.appendChunk request) (.returned pointer Status.OK) threads
        (.replied (.appendChunk { offset := chunk.size }))
  | readFailed {request : ReadChunkRequest} {pointer : ℕ} {chunk : Chunk H} {failure : Failure}
      (available : threads.available pointer = some chunk)
      (fails : readFails store text request.offset request.length.toUInt64 chunk
        threads.world.store = some failure) :
      Handled store text threads (.readChunk request) (.found pointer)
        (threads.startRead store text pointer request.offset request.length.toUInt64 (some [])
          chunk)
        (.replied (.failed failure))
  | readEntered {request : ReadChunkRequest} {pointer : ℕ} {chunk : Chunk H} {fh : H}
      (available : threads.available pointer = some chunk)
      (inside : (request.offset + request.length.toUInt64).toNat ≤ chunk.size)
      (opens : (store.openFile (text.str chunk.uuid) .rdonly threads.world.store).1 = .ok fh) :
      Handled store text threads (.readChunk request) (.found pointer)
        (threads.hold pointer (.reading fh request.offset.toNat request.length.toNat [])
          { threads.world with
            store := (store.openFile (text.str chunk.uuid) .rdonly threads.world.store).2 })
        (.inside pointer)
  | readNot {request : ReadChunkRequest} {pointer : ℕ} {chunk : Chunk H} {fh : H}
      {offset size : ℕ} {buf : Bytes} {failure : Failure}
      (present : threads.world.chunks[pointer]? = some chunk)
      (held : threads.sections pointer = .reading fh offset size buf)
      (fails : (store.read fh offset size buf threads.world.store).1 = .error failure)
      {next : Threads σ H} (resumed : threads.resume store pointer chunk = some next) :
      Handled store text threads (.readChunk request) (.inside pointer) next
        (.replied (.failed failure))
  | read {request : ReadChunkRequest} {pointer : ℕ} {chunk : Chunk H} {fh : H}
      {offset size : ℕ} {buf bytes : Bytes}
      (present : threads.world.chunks[pointer]? = some chunk)
      (held : threads.sections pointer = .reading fh offset size buf)
      (reads : (store.read fh offset size buf threads.world.store).1 = .ok bytes)
      {next : Threads σ H} (resumed : threads.resume store pointer chunk = some next) :
      Handled store text threads (.readChunk request) (.inside pointer) next
        (.replied (.readChunk { attachment := bytes }))
  | sealFailed {chunkId : UUID} {pointer : ℕ} {chunk : Chunk H} {failure : Failure}
      (available : threads.available pointer = some chunk)
      (fails : (store.sealFile chunk.fh threads.world.store).1 = .error failure) :
      Handled store text threads (.queryAndSealChunk chunkId) (.found pointer)
        (threads.startQueryAndSeal store pointer .valid chunk)
        (.replied (.queryAndSealChunk { header := setHeader failure }))
  | sealEntered {chunkId : UUID} {pointer : ℕ} {chunk : Chunk H}
      (available : threads.available pointer = some chunk)
      (done : (store.sealFile chunk.fh threads.world.store).1 = Status.OK) :
      Handled store text threads (.queryAndSealChunk chunkId) (.found pointer)
        (threads.hold pointer .sizing
          { threads.world with store := (store.sealFile chunk.fh threads.world.store).2 })
        (.inside pointer)
  | sizeFailed {chunkId : UUID} {pointer : ℕ} {chunk : Chunk H} {failure : Failure}
      (present : threads.world.chunks[pointer]? = some chunk)
      (fails : (store.size chunk.fh threads.world.store).1 = .error failure)
      {next : Threads σ H} (resumed : threads.resume store pointer chunk = some next) :
      Handled store text threads (.queryAndSealChunk chunkId) (.inside pointer) next
        (.replied (.queryAndSealChunk { header := setHeader failure }))
  | sealedAt {chunkId : UUID} {pointer size : ℕ} {chunk : Chunk H}
      (present : threads.world.chunks[pointer]? = some chunk)
      (sized : (store.size chunk.fh threads.world.store).1 = .ok size)
      {next : Threads σ H} (resumed : threads.resume store pointer chunk = some next) :
      Handled store text threads (.queryAndSealChunk chunkId) (.inside pointer) next
        (.replied (.queryAndSealChunk { size := size }))
  | sized {chunkId : UUID} {pointer : ℕ} {chunk : Chunk H}
      (present : threads.world.chunks[pointer]? = some chunk) :
      Handled store text threads (.queryChunk chunkId) (.found pointer) threads
        (.sized pointer chunk.size)
  | queried {chunkId : UUID} {pointer size : ℕ} {chunk : Chunk H}
      (present : threads.world.chunks[pointer]? = some chunk) :
      Handled store text threads (.queryChunk chunkId) (.sized pointer size) threads
        (.replied (.queryChunk { size := size, sealed := chunk.state = .kSealed }))

section Steps

variable {store : Store σ H} {text : UUID.Text} {threads next : Threads σ H} {phase after : Phase}

theorem getChunk_handled {request : ChunkRequest} {chunkId : UUID}
    (about : request.chunkId? = some chunkId) (threads : Threads σ H) :
    Handled store text threads request .received threads
      (getChunk chunkId (missingReply request) threads) := by
  unfold getChunk World.getChunk
  cases present : threads.world.bank[chunkId]? with
  | none => exact .missing about present
  | some pointer => exact .located about present

/-- The steps of `CreateChunk`. -/
theorem createChunk_handled {drawn : UUID}
    (handled : createChunk store text drawn threads phase = some (next, after)) :
    Handled store text threads .createChunk phase next after := by
  cases phase with
  | received =>
      simp only [createChunk] at handled
      split at handled
      all_goals
        simp only [Option.some.injEq, Prod.mk.injEq] at handled
        rcases handled with ⟨rfl, rfl⟩
        exact .created
  | _ =>
      simp only [createChunk, Option.some.injEq, Prod.mk.injEq] at handled
      rcases handled with ⟨rfl, rfl⟩
      exact .idle

/-- The steps of `RemoveChunk`. -/
theorem removeChunk_handled {chunkId : UUID}
    (handled : removeChunk store text chunkId threads phase = some (next, after)) :
    Handled store text threads (.removeChunk chunkId) phase next after := by
  cases phase with
  | received =>
      simp only [removeChunk] at handled
      split at handled
      all_goals
        simp only [Option.some.injEq, Prod.mk.injEq] at handled
        rcases handled with ⟨rfl, rfl⟩
        exact .removed
  | _ =>
      simp only [removeChunk, Option.some.injEq, Prod.mk.injEq] at handled
      rcases handled with ⟨rfl, rfl⟩
      exact .idle

/-- The steps of `AppendChunk`. -/
theorem appendChunk_handled {request : AppendChunkRequest}
    (handled : appendChunk store request threads phase = some (next, after)) :
    Handled store text threads (.appendChunk request) phase next after := by
  cases phase with
  | received =>
      simp only [appendChunk, Option.some.injEq, Prod.mk.injEq] at handled
      rcases handled with ⟨rfl, rfl⟩
      exact getChunk_handled rfl threads
  | found pointer =>
      simp only [appendChunk] at handled
      cases available : threads.available pointer with
      | none =>
          simp only [available, Option.some.injEq, Prod.mk.injEq] at handled
          rcases handled with ⟨rfl, rfl⟩
          exact .idle
      | some chunk =>
          simp only [available, Option.some.injEq, Prod.mk.injEq] at handled
          rcases handled with ⟨rfl, rfl⟩
          have free := (Threads.free_of_available available).1
          unfold Threads.startAppend
          cases entered : chunk.beginAppend store request.attachment request.offset.toNat
            threads.world.store with
          | returned chunk' state =>
              simp only [proceed, free]
              exact .appendReturned available entered
          | draining chunk' state =>
              simp only [proceed, Threads.hold, Function.update_self]
              exact .appendEntered available entered
  | inside pointer =>
      simp only [appendChunk] at handled
      cases present : threads.world.chunks[pointer]? with
      | none =>
          simp only [present, Option.some.injEq, Prod.mk.injEq] at handled
          rcases handled with ⟨rfl, rfl⟩
          exact .idle
      | some chunk =>
          simp only [present, Option.map_eq_some_iff, Prod.mk.injEq] at handled
          rcases handled with ⟨resumed, ran, rfl, rfl⟩
          exact .appendResumed present ran
  | awaiting pointer call =>
      simp only [appendChunk] at handled
      split at handled
      · rename_i offset buf status found
        simp only [Option.some.injEq, Prod.mk.injEq] at handled
        rcases handled with ⟨rfl, rfl⟩
        rcases Option.bind_eq_some_iff.mp found with ⟨chunk, present, settled⟩
        exact .appendSettled present settled
      · simp only [Option.some.injEq, Prod.mk.injEq] at handled
        rcases handled with ⟨rfl, rfl⟩
        exact .idle
  | returned pointer status =>
      cases status with
      | error failure =>
          simp only [appendChunk, Option.some.injEq, Prod.mk.injEq] at handled
          rcases handled with ⟨rfl, rfl⟩
          exact .appendFailed
      | ok done =>
          simp only [appendChunk] at handled
          cases present : threads.world.chunks[pointer]? with
          | none =>
              simp only [present, Option.some.injEq, Prod.mk.injEq] at handled
              rcases handled with ⟨rfl, rfl⟩
              exact .idle
          | some chunk =>
              simp only [present, Option.some.injEq, Prod.mk.injEq] at handled
              rcases handled with ⟨rfl, rfl⟩
              exact .appended present
  | sized pointer size | replied reply =>
      simp only [appendChunk, Option.some.injEq, Prod.mk.injEq] at handled
      rcases handled with ⟨rfl, rfl⟩
      exact .idle

/-- The steps of `ReadChunk`. -/
theorem readChunk_handled {request : ReadChunkRequest}
    (handled : readChunk store text request threads phase = some (next, after)) :
    Handled store text threads (.readChunk request) phase next after := by
  cases phase with
  | received =>
      simp only [readChunk, Option.some.injEq, Prod.mk.injEq] at handled
      rcases handled with ⟨rfl, rfl⟩
      exact getChunk_handled rfl threads
  | found pointer =>
      simp only [readChunk] at handled
      cases available : threads.available pointer with
      | none =>
          simp only [available, Option.some.injEq, Prod.mk.injEq] at handled
          rcases handled with ⟨rfl, rfl⟩
          exact .idle
      | some chunk =>
          simp only [available] at handled
          cases fails : readFails store text request.offset request.length.toUInt64 chunk
            threads.world.store with
          | some failure =>
              simp only [fails, Option.some.injEq, Prod.mk.injEq] at handled
              rcases handled with ⟨rfl, rfl⟩
              exact .readFailed available fails
          | none =>
              simp only [fails, Option.some.injEq, Prod.mk.injEq] at handled
              rcases handled with ⟨rfl, rfl⟩
              unfold readFails at fails
              split at fails
              · cases fails
              · rename_i notBeyond
                cases opens : store.openFile (text.str chunk.uuid) .rdonly threads.world.store with
                | mk result state =>
                    cases result with
                    | error failure => simp [opens] at fails
                    | ok fh =>
                        have entered : Handled store text threads (.readChunk request)
                            (.found pointer) _ (.inside pointer) :=
                          .readEntered available (Nat.not_lt.mp notBeyond) (by rw [opens])
                        simp only [opens] at entered
                        simp only [Threads.startRead, if_neg notBeyond, opens]
                        exact entered
  | inside pointer =>
      simp only [readChunk] at handled
      split at handled
      · rename_i chunk fh offset size buf present held
        simp only [Option.map_eq_some_iff] at handled
        rcases handled with ⟨resumed, ran, answered⟩
        split at answered
        · rename_i failure fails
          simp only [Prod.mk.injEq] at answered
          rcases answered with ⟨rfl, rfl⟩
          exact .readNot present held fails ran
        · rename_i bytes reads
          simp only [Prod.mk.injEq] at answered
          rcases answered with ⟨rfl, rfl⟩
          exact .read present held reads ran
      · simp only [Option.some.injEq, Prod.mk.injEq] at handled
        rcases handled with ⟨rfl, rfl⟩
        exact .idle
  | _ =>
      simp only [readChunk, Option.some.injEq, Prod.mk.injEq] at handled
      rcases handled with ⟨rfl, rfl⟩
      exact .idle

/-- The steps of `QueryAndSealChunk`. -/
theorem queryAndSealChunk_handled {chunkId : UUID}
    (handled : queryAndSealChunk store chunkId threads phase = some (next, after)) :
    Handled store text threads (.queryAndSealChunk chunkId) phase next after := by
  cases phase with
  | received =>
      simp only [queryAndSealChunk, Option.some.injEq, Prod.mk.injEq] at handled
      rcases handled with ⟨rfl, rfl⟩
      exact getChunk_handled rfl threads
  | found pointer =>
      simp only [queryAndSealChunk] at handled
      cases available : threads.available pointer with
      | none =>
          simp only [available, Option.some.injEq, Prod.mk.injEq] at handled
          rcases handled with ⟨rfl, rfl⟩
          exact .idle
      | some chunk =>
          simp only [available] at handled
          cases called : store.sealFile chunk.fh threads.world.store with
          | mk status state =>
              cases status with
              | error failure =>
                  simp only [called, Option.some.injEq, Prod.mk.injEq] at handled
                  rcases handled with ⟨rfl, rfl⟩
                  exact .sealFailed available (by rw [called])
              | ok done =>
                  simp only [called, Option.some.injEq, Prod.mk.injEq] at handled
                  rcases handled with ⟨rfl, rfl⟩
                  have entered : Handled store text threads (.queryAndSealChunk chunkId)
                      (.found pointer) _ (.inside pointer) :=
                    .sealEntered available (by rw [called])
                  simp only [called] at entered
                  simp only [Threads.startQueryAndSeal, reduceCtorEq, if_false, called]
                  exact entered
  | inside pointer =>
      simp only [queryAndSealChunk] at handled
      cases present : threads.world.chunks[pointer]? with
      | none =>
          simp only [present, Option.some.injEq, Prod.mk.injEq] at handled
          rcases handled with ⟨rfl, rfl⟩
          exact .idle
      | some chunk =>
          simp only [present, Option.map_eq_some_iff] at handled
          rcases handled with ⟨resumed, ran, answered⟩
          split at answered
          · rename_i failure fails
            simp only [Prod.mk.injEq] at answered
            rcases answered with ⟨rfl, rfl⟩
            exact .sizeFailed present fails ran
          · rename_i size sized
            simp only [Prod.mk.injEq] at answered
            rcases answered with ⟨rfl, rfl⟩
            exact .sealedAt present sized ran
  | _ =>
      simp only [queryAndSealChunk, Option.some.injEq, Prod.mk.injEq] at handled
      rcases handled with ⟨rfl, rfl⟩
      exact .idle

/-- The steps of `QueryChunk`. -/
theorem queryChunk_handled {chunkId : UUID}
    (handled : queryChunk chunkId threads phase = some (next, after)) :
    Handled store text threads (.queryChunk chunkId) phase next after := by
  cases phase with
  | received =>
      simp only [queryChunk, Option.some.injEq, Prod.mk.injEq] at handled
      rcases handled with ⟨rfl, rfl⟩
      exact getChunk_handled rfl threads
  | found pointer =>
      simp only [queryChunk] at handled
      cases present : threads.world.chunks[pointer]? with
      | none =>
          simp only [present, Option.some.injEq, Prod.mk.injEq] at handled
          rcases handled with ⟨rfl, rfl⟩
          exact .idle
      | some chunk =>
          simp only [present, Option.some.injEq, Prod.mk.injEq] at handled
          rcases handled with ⟨rfl, rfl⟩
          exact .sized present
  | sized pointer size =>
      simp only [queryChunk] at handled
      cases present : threads.world.chunks[pointer]? with
      | none =>
          simp only [present, Option.some.injEq, Prod.mk.injEq] at handled
          rcases handled with ⟨rfl, rfl⟩
          exact .idle
      | some chunk =>
          simp only [present, Option.some.injEq, Prod.mk.injEq] at handled
          rcases handled with ⟨rfl, rfl⟩
          exact .queried present
  | _ =>
      simp only [queryChunk, Option.some.injEq, Prod.mk.injEq] at handled
      rcases handled with ⟨rfl, rfl⟩
      exact .idle

/-- A step of a handler is one of the cases of `Handled`. -/
theorem handle_handled {drawn : UUID} {request : ChunkRequest}
    (handled : handle store text drawn threads phase request = some (next, after)) :
    Handled store text threads request phase next after := by
  cases request with
  | createChunk => exact createChunk_handled handled
  | appendChunk rq => exact appendChunk_handled handled
  | readChunk rq => exact readChunk_handled handled
  | queryAndSealChunk chunkId => exact queryAndSealChunk_handled handled
  | removeChunk chunkId => exact removeChunk_handled handled
  | queryChunk chunkId => exact queryChunk_handled handled
  | listChunk rq =>
      simp only [handle] at handled
      split at handled
      all_goals
        simp only [Option.some.injEq, Prod.mk.injEq] at handled
        rcases handled with ⟨rfl, rfl⟩
      · exact .listed
      · exact .idle

/-- The step of the chunk objects behind a step of a handler. -/
theorem Handled.turn {request : ChunkRequest} (waiting : threads.world.Waiting)
    (handled : Handled store text threads request phase next after) :
    ∃ turn, Threads.Taken store text threads turn next ∧
      (∀ pointer, turn = .resume pointer → phase = .inside pointer) ∧
      ∀ removed, turn = .start (.removeChunk removed) → request = .removeChunk removed := by
  have resumedTurn : ∀ {pointer : ℕ} {chunk : Chunk H} {resumed : Threads σ H},
      threads.world.chunks[pointer]? = some chunk →
        threads.resume store pointer chunk = some resumed →
          Threads.Taken store text threads (.resume pointer) resumed := by
    intro pointer chunk resumed present ran
    rcases Threads.resume_taken (waiting pointer chunk present) present with ⟨same, ranSame, taken⟩
    rw [ran, Option.some.injEq] at ranSame
    exact ranSame ▸ taken
  cases handled with
  | idle | listed | missing | located | appendSettled | appendFailed | appended | sized | queried =>
      exact ⟨.start (.timeout 0 0), .idle, (by simp), (by simp)⟩
  | created =>
      exact ⟨_, .ofBank (.inl ⟨_, _, rfl⟩) (World.createChunk_stepped store text _ _ _), (by simp),
        (by simp)⟩
  | @removed chunkId =>
      refine ⟨.start (.removeChunk chunkId), .ofBank (.inr ⟨chunkId, rfl⟩) ?_, (by simp), by simp⟩
      exact World.stepped_of_step waiting rfl
  | @appendReturned rq pointer chunk _ _ available entered =>
      rcases Threads.free_of_available available with ⟨free, present⟩
      have taken : Threads.Taken store text threads (.start (.append pointer rq.attachment 0))
          (threads.startAppend store pointer rq.attachment rq.offset.toNat chunk) :=
        Threads.startAppend_taken free present _ _ _
      simp only [Threads.startAppend, entered] at taken
      exact ⟨_, taken, (by simp), (by simp)⟩
  | @appendEntered rq pointer chunk _ _ available entered =>
      rcases Threads.free_of_available available with ⟨free, present⟩
      have taken : Threads.Taken store text threads (.start (.append pointer rq.attachment 0))
          (threads.startAppend store pointer rq.attachment rq.offset.toNat chunk) :=
        Threads.startAppend_taken free present _ _ _
      simp only [Threads.startAppend, entered] at taken
      exact ⟨_, taken, (by simp), (by simp)⟩
  | @readFailed rq pointer _ _ available =>
      rcases Threads.free_of_available available with ⟨free, present⟩
      exact ⟨.start (.read pointer rq.offset 0 none),
        Threads.startRead_taken free present _ _ _ _, (by simp), (by simp)⟩
  | @readEntered rq pointer chunk _ available inside opens =>
      rcases Threads.free_of_available available with ⟨free, present⟩
      rw [← World.put_self present]
      exact ⟨.start (.read pointer rq.offset 0 none),
        .inSection present free (.inl rfl) (.opened opens), (by simp), (by simp)⟩
  | @sealFailed _ pointer _ _ available =>
      rcases Threads.free_of_available available with ⟨free, present⟩
      exact ⟨.start (.queryAndSeal pointer .valid),
        Threads.startQueryAndSeal_taken free present _ _, (by simp), (by simp)⟩
  | @sealEntered _ pointer _ available =>
      rcases Threads.free_of_available available with ⟨free, present⟩
      rw [← World.put_self present]
      exact ⟨.start (.queryAndSeal pointer .valid), .inSection present free (.inl rfl) .sizing,
        (by simp), (by simp)⟩
  | appendResumed present ran =>
      exact ⟨_, resumedTurn present ran, by simp, (by simp)⟩
  | readNot present _ _ ran => exact ⟨_, resumedTurn present ran, by simp, (by simp)⟩
  | read present _ _ ran => exact ⟨_, resumedTurn present ran, by simp, (by simp)⟩
  | sizeFailed present _ ran => exact ⟨_, resumedTurn present ran, by simp, (by simp)⟩
  | sealedAt present _ ran => exact ⟨_, resumedTurn present ran, by simp, (by simp)⟩

theorem proceed_eq_inside {returned : Phase} {pointer other : ℕ}
    (inside : proceed pointer returned threads = .inside other)
    (notInside : ∀ another, returned ≠ .inside another) :
    other = pointer ∧ threads.sections other ≠ .free := by
  unfold proceed at inside
  split at inside
  · exact absurd inside (notInside other)
  all_goals
    rename_i held
    simp only [Phase.inside.injEq] at inside
    subst inside
    exact ⟨rfl, by simp [held]⟩

/-- A handler gets inside a chunk only when nobody is. -/
theorem Handled.entered {request : ChunkRequest} {pointer : ℕ}
    (handled : Handled store text threads request phase next after)
    (held : ∀ pointer, phase = .inside pointer → threads.sections pointer ≠ .free)
    (inside : after = .inside pointer) :
    next.sections pointer ≠ .free ∧
      (phase = .inside pointer ∨ threads.sections pointer = .free) := by
  cases handled with
  | idle => exact ⟨held pointer inside, .inl inside⟩
  | appendEntered available | readEntered available | sealEntered available =>
      simp only [Phase.inside.injEq] at inside
      subst inside
      exact ⟨by simp [Threads.hold], .inr (Threads.free_of_available available).1⟩
  | appendResumed present ran =>
      rcases proceed_eq_inside inside (by simp) with ⟨rfl, stillHeld⟩
      exact ⟨stillHeld, .inl rfl⟩
  | _ => cases inside

/-- No handler aborts. -/
theorem handle_total (store : Store σ H) (text : UUID.Text) {threads : Threads σ H}
    (waiting : threads.world.Waiting) (drawn : UUID) (phase : Phase) (request : ChunkRequest) :
    ∃ result, handle store text drawn threads phase request = some result := by
  have resumes : ∀ pointer chunk, threads.world.chunks[pointer]? = some chunk →
      ∃ next, threads.resume store pointer chunk = some next := by
    intro pointer chunk present
    rcases @Threads.resume_taken σ H store text threads pointer chunk
      (waiting pointer chunk present) present with ⟨next, ran, -⟩
    exact ⟨next, ran⟩
  rw [← Option.isSome_iff_exists]
  cases request with
  | createChunk =>
      cases phase <;> simp only [handle, createChunk, Option.isSome_some]
      split <;> rfl
  | listChunk rq => cases phase <;> rfl
  | removeChunk chunkId =>
      cases phase <;> simp only [handle, removeChunk, Option.isSome_some]
      split <;> rfl
  | queryChunk chunkId =>
      cases phase <;> simp only [handle, queryChunk, Option.isSome_some]
      all_goals split <;> rfl
  | appendChunk rq =>
      cases phase with
      | inside pointer =>
          simp only [handle, appendChunk]
          split
          · rfl
          · rename_i chunk present
            rcases resumes pointer chunk present with ⟨next, ran⟩
            simp [ran]
      | returned pointer status =>
          cases status <;> simp only [handle, appendChunk, Option.isSome_some]
          split <;> rfl
      | received | sized | replied => rfl
      | found | awaiting =>
          simp only [handle, appendChunk]
          split <;> rfl
  | readChunk rq =>
      cases phase with
      | inside pointer =>
          simp only [handle, readChunk]
          split
          · rename_i chunk fh offset size buf present held
            rcases resumes pointer chunk present with ⟨next, ran⟩
            simp [ran]
          · rfl
      | found pointer =>
          simp only [handle, readChunk]
          split
          · rfl
          · split <;> rfl
      | received | awaiting | returned | sized | replied => rfl
  | queryAndSealChunk chunkId =>
      cases phase with
      | inside pointer =>
          simp only [handle, queryAndSealChunk]
          split
          · rfl
          · rename_i chunk present
            rcases resumes pointer chunk present with ⟨next, ran⟩
            simp [ran]
      | found pointer =>
          simp only [handle, queryAndSealChunk]
          split
          · rfl
          · split <;> rfl
      | received | awaiting | returned | sized | replied => rfl

end Steps

end ManusyaServiceImpl

namespace Threads

variable {σ H : Type} {store : Store σ H} {text : UUID.Text} {threads next : Threads σ H}
  {turn : Turn} {pointer : ℕ}

/-- Only its holder changes a chunk whose mutex is held. -/
theorem Taken.same (taken : Taken store text threads turn next)
    (held : threads.sections pointer ≠ .free)
    (allocated : ∃ chunk, threads.world.chunks[pointer]? = some chunk)
    (another : turn ≠ .resume pointer) :
    next.sections pointer = threads.sections pointer ∧
      next.world.chunks[pointer]? = threads.world.chunks[pointer]? := by
  cases taken with
  | idle => exact ⟨rfl, rfl⟩
  | ofBank asked stepped =>
      refine ⟨rfl, ?_⟩
      cases stepped with
      | idle | notCreated | removed => rfl
      | created opens =>
          rcases allocated with ⟨chunk, present⟩
          rw [present]
          exact World.getElem?_adopt.mpr (.inl present)
      | appended | timedOut | read | queriedAndSealed => simp at asked
  | @inSection _ entered _ _ before _ _ present isBefore whose stepped =>
      have different : entered ≠ pointer := by
        rintro rfl
        rcases whose with free | resumes
        · exact held (isBefore.trans free)
        · exact another resumes
      refine ⟨Function.update_of_ne different.symm _ _, ?_⟩
      simp only [hold, World.getElem?_put present, if_neg different]

end Threads

namespace Server

/-- A handler holds the mutex of the chunk that it is inside of, which protects the section and
the chunk object. -/
def locking : Lib.Pool.Locking (Threads MemStore Bytes) Handler ℕ where
  holds := fun handler pointer => handler.phase = .inside pointer
  taken := fun threads pointer => threads.sections pointer ≠ .free
  same := fun pointer before after => after.sections pointer = before.sections pointer ∧
    after.world.chunks[pointer]? = before.world.chunks[pointer]?

/-- The chunk server keeps the discipline, as long as no request to remove the chunk arrives. -/
theorem discipline (text : UUID.Text) (uuid : UUID) :
    Lib.Pool.Discipline (program MemStore.store text) locking (Threads.OwnsFile text uuid)
      (fun handler => handler.request ≠ .removeChunk uuid) (Threads.Grows uuid) where
  refl := .refl uuid
  same_refl := fun _ _ => ⟨rfl, rfl⟩
  fresh := by simp [program, locking]
  taken_of_same := fun same held free => held (same.1.symm.trans free)
  handle := by
    intro drawn threads handler next after owns spares held handled
    simp only [program, Option.map_eq_some_iff, Prod.mk.injEq] at handled
    rcases handled with ⟨⟨moved, phase⟩, ran, rfl, rfl⟩
    have cases := ManusyaServiceImpl.handle_handled ran
    rcases cases.turn owns.waiting with ⟨turn, taken, whose, removes⟩
    have notRemoved : turn ≠ .start (.removeChunk uuid) := fun same => spares (removes uuid same)
    rcases taken.ownsFile notRemoved owns with ⟨ownsNext, grows⟩
    refine ⟨ownsNext, spares, grows, ?_, ?_⟩
    · intro pointer inside
      rcases cases.entered held inside with ⟨now, before⟩
      exact ⟨now, before.imp_right (fun free taken => taken free)⟩
    · intro pointer isHeld notHolder
      exact taken.same isHeld (owns.allocated pointer isHeld)
        (fun resumes => notHolder (whose pointer resumes))
  outside := by
    rintro ⟨timed, call⟩ threads next owns fired
    rcases Threads.step_spec MemStore.store text owns.waiting (.start (.timeout timed call)) with
      ⟨same, ran, taken⟩
    have sameNext : next = same := Option.some.inj (fired.symm.trans ran)
    subst sameNext
    rcases taken.ownsFile (by simp) owns with ⟨ownsNext, grows⟩
    refine ⟨ownsNext, grows, ?_⟩
    exact fun pointer isHeld => taken.same isHeld (owns.allocated pointer isHeld) (by simp)

/-- The requests of a run do not remove the chunk. -/
def Spares (uuid : UUID) (events : List Event) : Prop :=
  .arrive (.removeChunk uuid) ∉ events

instance (uuid : UUID) (events : List Event) : Decidable (Spares uuid events) :=
  inferInstanceAs (Decidable (¬_))

theorem Spares.admits {text : UUID.Text} {uuid : UUID} {events : List Event}
    (spares : Spares uuid events) :
    ∀ event ∈ events, Lib.Pool.Admits (program MemStore.store text)
      (fun handler => handler.request ≠ .removeChunk uuid) event := by
  rintro event member request rfl removes
  exact spares (removes ▸ member)

/-- No two handlers are inside one chunk, and the chunk has its file to itself. -/
abbrev Orderly (text : UUID.Text) (uuid : UUID) (server : Server MemStore Bytes) : Prop :=
  Lib.Pool.Orderly locking (Threads.OwnsFile text uuid)
    (fun handler => handler.request ≠ .removeChunk uuid) server

/-- A server on an empty store is in order. -/
theorem initial_orderly (text : UUID.Text) (uuid : UUID) : Orderly text uuid (initial ∅) :=
  Lib.Pool.orderly_empty (Threads.initial_ownsFile text uuid)

/-- No run of the server aborts. -/
theorem run_total {text : UUID.Text} {uuid : UUID} {server : Server MemStore Bytes}
    (orderly : Orderly text uuid server) {events : List Event} (spares : Spares uuid events) :
    ∃ final, server.run MemStore.store text events = some final ∧ Orderly text uuid final := by
  refine (discipline text uuid).exec_total ?_ ?_ orderly spares.admits
  · intro drawn threads handler owns
    rcases ManusyaServiceImpl.handle_total MemStore.store text owns.waiting drawn handler.phase
      handler.request with ⟨result, ran⟩
    simp only [program, ran, Option.map_some]
    exact ⟨_, rfl⟩
  · rintro ⟨timed, call⟩ threads owns
    rcases Threads.step_spec MemStore.store text owns.waiting (.start (.timeout timed call)) with
      ⟨next, ran, -⟩
    exact ⟨next, ran⟩

end Server

end Pain.Manusya
