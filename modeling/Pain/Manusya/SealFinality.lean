import Pain.Manusya.AppendExactness

/-!
# Sealing is final

`query_and_seal` does not touch the queue of waiting appends. This file proves
that they can no longer be applied: only the drain loop of an accepted append
takes requests from the queue, and a sealed chunk accepts none. From the moment
`query_and_seal` returns `OK` the size, the bytes of the file and the set of
acknowledged calls of the chunk are frozen, and a later `query_and_seal` reports
the same length.
-/

namespace Pain.Manusya

open Lib.Extent (payload)

namespace Chunk

variable {σ H : Type} {store : Store σ H}

/-- `chunk` is sealed and has acknowledged nothing that `origin` had not. -/
structure Frozen (origin chunk : Chunk H) : Prop where
  isSealed : chunk.state = .kSealed
  size : chunk.size = origin.size
  handle : chunk.fh = origin.fh
  outcomes : ∀ (call : ℕ) (entry : AppendCall), chunk.calls[call]? = some entry →
    entry.promise = .result Status.OK → origin.calls[call]? = some entry

theorem Frozen.answer {origin chunk : Chunk H} (frozen : Frozen origin chunk) (offset : ℕ)
    (buf : Bytes) {status : Status} (notOk : status ≠ Status.OK) :
    Frozen origin (chunk.answer offset buf status) where
  isSealed := frozen.isSealed
  size := frozen.size
  handle := frozen.handle
  outcomes := by
    intro call entry found ok
    simp only [Chunk.answer] at found
    rcases lt_or_ge call chunk.calls.length with old | new
    · rw [List.getElem?_append_left old] at found
      exact frozen.outcomes call entry found ok
    · rw [List.getElem?_append_right new] at found
      have same := List.mem_of_getElem? found
      simp only [List.mem_singleton] at same
      subst same
      simp only [FutureState.result.injEq] at ok
      exact absurd ok notOk

theorem Frozen.release {origin chunk : Chunk H} (frozen : Frozen origin chunk) (call : ℕ)
    {status : Status} (notOk : status ≠ Status.OK) :
    Frozen origin (chunk.release call status) where
  isSealed := frozen.isSealed
  size := frozen.size
  handle := frozen.handle
  outcomes := by
    intro other entry found ok
    rw [Chunk.release, getElem?_setPromise] at found
    rcases Option.map_eq_some_iff.mp found with ⟨before, foundBefore, rfl⟩
    by_cases same : call = other
    · simp only [same, if_true, FutureState.result.injEq] at ok
      exact absurd ok notOk
    · simp only [same, if_false] at ok ⊢
      exact frozen.outcomes other before foundBefore ok

theorem Frozen.appended {origin chunk : Chunk H} (frozen : Frozen origin chunk) {buf : Bytes}
    {offset : ℕ} {state : σ} {after : Chunk H × σ}
    (appended : Appended store buf offset chunk state after) :
    Frozen origin after.1 ∧ after.2 = state := by
  cases appended with
  | refused notOk reason => exact ⟨frozen.answer offset buf notOk, rfl⟩
  | queued unsealed beyond => exact absurd frozen.isSealed unsealed
  | failed unsealed reached notOk => exact absurd frozen.isSealed unsealed
  | written unsealed reached ok drains drained => exact absurd frozen.isSealed unsealed

/-- `query_and_seal` reports the length of the file and changes nothing but the state. -/
theorem queryAndSeal_ok (spec : store.Spec) {chunk : Chunk H} {state : σ} {data : Bytes}
    (held : spec.contents state chunk.fh = some data) {length : ℕ}
    (returned : (chunk.queryAndSeal store .valid state).1 = .ok length) :
    length = data.length ∧
      (chunk.queryAndSeal store .valid state).2.1 = { chunk with state := .kSealed } ∧
      spec.contents (chunk.queryAndSeal store .valid state).2.2 chunk.fh = some data := by
  have called := chunk.queryAndSeal_spec store .valid state
  have heldSealed := spec.sealFile_other chunk.fh held
  revert called returned
  generalize chunk.queryAndSeal store .valid state = result
  intro returned called
  cases called with
  | null => simp at returned
  | sealFailed => simp at returned
  | sizeFailed => simp at returned
  | done sized =>
      simp only [Except.ok.injEq] at returned
      subst returned
      exact ⟨spec.size_ok heldSealed sized, rfl, spec.size_other heldSealed heldSealed⟩

theorem queryAndSeal_succeeds (spec : store.Spec) (succeeds : spec.SealSucceeds) {chunk : Chunk H}
    {state : σ} {data : Bytes} (held : spec.contents state chunk.fh = some data) :
    ∃ length, (chunk.queryAndSeal store .valid state).1 = .ok length := by
  have heldSealed := spec.sealFile_other chunk.fh held
  have sealOk := (succeeds held).1
  rcases (succeeds heldSealed).2 with ⟨length, sized⟩
  refine ⟨length, ?_⟩
  rcases queryAndSeal_cases store chunk state with
    ⟨failure, sealFailed, -⟩ | ⟨-, ⟨failure, sizeFailed, -⟩ | ⟨other, otherSized, called⟩⟩
  · rw [sealFailed] at sealOk
    cases sealOk
  · rw [sizeFailed] at sized
    cases sized
  · rw [called]
    exact otherSized.symm.trans sized

end Chunk

namespace World

variable {σ H : Type} {store : Store σ H}

/-- The chunk object at `pointer` is frozen since it was `origin`, and its file holds `data`. -/
def FrozenAt (spec : store.Spec) (pointer : ℕ) (origin : Chunk H) (data : Bytes)
    (world : World σ H) : Prop :=
  ∃ chunk, world.chunks[pointer]? = some chunk ∧ Chunk.Frozen origin chunk ∧
    spec.contents world.store chunk.fh = some data

theorem FrozenAt.withStore {spec : store.Spec} {pointer : ℕ} {origin : Chunk H} {data : Bytes}
    {world : World σ H} {state : σ} (frozen : world.FrozenAt spec pointer origin data)
    (kept : ∀ fh, spec.contents world.store fh = some data →
      spec.contents state fh = some data) :
    ({ world with store := state } : World σ H).FrozenAt spec pointer origin data := by
  rcases frozen with ⟨chunk, found, frozenChunk, held⟩
  exact ⟨chunk, found, frozenChunk, kept _ held⟩

/-- A section of a chunk keeps the frozen one frozen: the section is its own and leaves it frozen
and its file as it was, or it is another's and changes only another file. -/
theorem FrozenAt.put {spec : store.Spec} {pointer other : ℕ} {origin old chunk : Chunk H}
    {data : Bytes} {world : World σ H} {state : σ} (backed : world.Backed spec)
    (frozen : world.FrozenAt spec pointer origin data)
    (present : world.chunks[other]? = some old)
    (own : Chunk.Frozen origin old → spec.contents world.store old.fh = some data →
      Chunk.Frozen origin chunk ∧ spec.contents state chunk.fh = some data)
    (kept : spec.Keeps old.fh world.store state) :
    (world.put other chunk state).FrozenAt spec pointer origin data := by
  rcases frozen with ⟨frozenChunk, found, isFrozen, held⟩
  by_cases same : other = pointer
  · subst same
    rw [present, Option.some.injEq] at found
    subst found
    rcases own isFrozen held with ⟨stillFrozen, stillHeld⟩
    exact ⟨chunk, by simp [getElem?_put present], stillFrozen, stillHeld⟩
  · refine ⟨frozenChunk, by simp [getElem?_put present, same, found], isFrozen, ?_⟩
    refine kept frozenChunk.fh data ?_ held
    intro sameHandle
    exact same (backed.distinct pointer other frozenChunk old found present sameHandle).symm

theorem Stepped.frozenAt (spec : store.Spec) {text : UUID.Text} {world next : World σ H}
    {event : Event} {pointer : ℕ} {origin : Chunk H} {data : Bytes}
    (stepped : Stepped store text world event next) (allowed : event.keepsFiles = true)
    (backed : world.Backed spec) (frozen : world.FrozenAt spec pointer origin data) :
    next.FrozenAt spec pointer origin data := by
  cases stepped with
  | idle => exact frozen
  | notCreated => exact frozen.withStore (fun _ held => spec.create_other held)
  | @created _ uuid fh state opens =>
      rcases frozen with ⟨chunk, found, isFrozen, held⟩
      refine ⟨chunk, getElem?_adopt.mpr (Or.inl found), isFrozen, ?_⟩
      have kept : spec.contents
          (store.openFile (text.str uuid) .createExclusive world.store).2 chunk.fh = some data :=
        spec.create_other held
      rw [opens] at kept
      exact kept
  | removed present => simp [Event.keepsFiles] at allowed
  | appended present appended =>
      refine frozen.put backed present ?_ (appended.keeps spec)
      intro isFrozen held
      rcases isFrozen.appended appended with ⟨stillFrozen, sameStore⟩
      refine ⟨stillFrozen, ?_⟩
      rw [appended.same_file.1, sameStore]
      exact held
  | timedOut present pending =>
      refine frozen.put backed present ?_ (fun _ _ _ => id)
      intro isFrozen held
      exact ⟨isFrozen.release _ (by simp [Chunk.invalidOffset, Status.fail]), held⟩
  | read present => exact frozen.withStore (fun _ held => spec.read_other _ _ _ _ held)
  | @queriedAndSealed other length chunk result present called =>
      rcases backed.chunks _ _ present with ⟨otherData, otherHeld, -⟩
      have sealedHeld := spec.sealFile_other chunk.fh otherHeld
      have keptSealed : ∀ fh value, spec.contents world.store fh = some value →
          spec.contents (store.sealFile chunk.fh world.store).2 fh = some value :=
        fun fh value held => spec.sealFile_other chunk.fh held
      have keptSized : ∀ fh value, spec.contents world.store fh = some value →
          spec.contents (store.size chunk.fh (store.sealFile chunk.fh world.store).2).2 fh =
            some value :=
        fun fh value held => spec.size_other sealedHeld (keptSealed fh value held)
      cases called with
      | null =>
          exact frozen.put backed present (fun isFrozen held => ⟨isFrozen, held⟩)
            (fun _ _ _ => id)
      | sealFailed =>
          exact frozen.put backed present
            (fun isFrozen held => ⟨isFrozen, keptSealed _ _ held⟩)
            (fun fh value _ held => keptSealed fh value held)
      | sizeFailed =>
          exact frozen.put backed present
            (fun isFrozen held => ⟨isFrozen, keptSized _ _ held⟩)
            (fun fh value _ held => keptSized fh value held)
      | done sized =>
          refine frozen.put backed present ?_ (fun fh value _ held => keptSized fh value held)
          intro isFrozen held
          exact ⟨⟨rfl, isFrozen.size, isFrozen.handle, isFrozen.outcomes⟩, keptSized _ _ held⟩

theorem run_frozenAt (spec : store.Spec) (text : UUID.Text) {world : World σ H} {pointer : ℕ}
    {origin : Chunk H} {data : Bytes} (backed : world.Backed spec)
    (frozen : world.FrozenAt spec pointer origin data) {events : List Event}
    (allowed : ∀ event ∈ events, event.keepsFiles = true) :
    ∃ final, world.run store text events = some final ∧
      final.Backed spec ∧ final.FrozenAt spec pointer origin data := by
  refine Lib.exec_total
    (fun later : World σ H => later.Backed spec ∧ later.FrozenAt spec pointer origin data)
    ?_ ⟨backed, frozen⟩ (Lib.guarded_of_forall_mem allowed)
  rintro before event ⟨holds, isFrozen⟩ eventAllowed
  rcases step_spec store text holds.waiting event with ⟨next, took, stepped⟩
  exact ⟨next, took, stepped.backed spec eventAllowed holds,
    stepped.frozenAt spec eventAllowed holds isFrozen⟩

/-- Sealing is final. When `query_and_seal` returns `OK` with a length, that is the size of the
chunk and the number of acknowledged bytes; whatever sections run afterwards, the size and the
bytes of the file stay, no further call of `append` is acknowledged, and `query_and_seal` reports
no other length, and reports this one whenever the store's own calls succeed. -/
theorem seal_final (spec : store.Spec) (text : UUID.Text) (state : σ) (events : List Event)
    (allowed : ∀ event ∈ events, event.keepsFiles = true) {world : World σ H}
    (ran : (initial state).run store text events = some world) {pointer : ℕ} {chunk : Chunk H}
    (found : world.chunks[pointer]? = some chunk) {length : ℕ}
    (returned : (chunk.queryAndSeal store .valid world.store).1 = .ok length) :
    length = chunk.size ∧ length = (payload chunk.acknowledged).length ∧
      ∀ later : List Event, (∀ event ∈ later, event.keepsFiles = true) →
        ∃ final, world.run store text (.queryAndSeal pointer .valid :: later) = some final ∧
          ∃ chunk', final.chunks[pointer]? = some chunk' ∧ chunk'.size = length ∧
            spec.contents final.store chunk'.fh = spec.contents world.store chunk.fh ∧
            (∀ (call : ℕ) (entry : AppendCall), chunk'.calls[call]? = some entry →
              entry.promise = .result Status.OK → chunk.calls[call]? = some entry) ∧
            (∀ length', (chunk'.queryAndSeal store .valid final.store).1 = .ok length' →
              length' = length) ∧
            (spec.SealSucceeds →
              (chunk'.queryAndSeal store .valid final.store).1 = .ok length) := by
  rcases run_backed spec text (initial_backed spec state) allowed with ⟨world', ran', backed⟩
  rw [ran, Option.some.injEq] at ran'
  subst ran'
  rcases backed.chunks pointer chunk found with ⟨data, held, exactly⟩
  rcases Chunk.queryAndSeal_ok spec held returned with ⟨lengthEq, sealedChunk, sealedHeld⟩
  have sizeEq : length = chunk.size := by rw [lengthEq, exactly.length]
  refine ⟨sizeEq, ?_, ?_⟩
  · have sameBytes := (Lib.Extent.byOffset_perm chunk.acknowledged).flatMap_right Lib.Extent.data
    rw [lengthEq, exactly.eq_payload]
    exact sameBytes.length_eq
  · intro later laterAllowed
    have took : world.step store text (.queryAndSeal pointer .valid) =
        some (world.put pointer (chunk.queryAndSeal store .valid world.store).2.1
          (chunk.queryAndSeal store .valid world.store).2.2) := by
      simp [step, found]
    have stepped : Stepped store text world (.queryAndSeal pointer .valid) _ :=
      .queriedAndSealed found (chunk.queryAndSeal_spec store .valid world.store)
    have sealedBacked := stepped.backed spec rfl backed
    have frozen : (world.put pointer (chunk.queryAndSeal store .valid world.store).2.1
        (chunk.queryAndSeal store .valid world.store).2.2).FrozenAt spec pointer chunk data := by
      refine ⟨_, by simp [getElem?_put found]; rfl, ?_, ?_⟩
      · rw [sealedChunk]
        exact ⟨rfl, rfl, rfl, fun _ _ foundCall _ => foundCall⟩
      · rw [sealedChunk]
        exact sealedHeld
    rcases run_frozenAt spec text sealedBacked frozen laterAllowed with
      ⟨final, ranLater, finalBacked, chunk', found', isFrozen, finalHeld⟩
    have sameLength : ∀ length', (chunk'.queryAndSeal store .valid final.store).1 = .ok length' →
        length' = length := by
      intro length' returnedLater
      rw [lengthEq]
      exact (Chunk.queryAndSeal_ok spec finalHeld returnedLater).1
    refine ⟨final, ?_, chunk', found', ?_, ?_, isFrozen.outcomes, sameLength, ?_⟩
    · simp only [run, Lib.exec_cons, took]
      exact ranLater
    · rw [isFrozen.size, sizeEq]
    · rw [finalHeld, held]
    · intro succeeds
      rcases Chunk.queryAndSeal_succeeds spec succeeds finalHeld with ⟨length', returnedLater⟩
      rw [returnedLater, sameLength length' returnedLater]

/-- On an in-memory store: an append waits at offset 5 when a chunk of two bytes is sealed. -/
theorem seal_final_memStore :
    ∃ world, (initial ∅).run MemStore.store .canonical
        [.createChunk .valid ⟨0, 1⟩, .append 0 [7] 5, .append 0 [1, 2] 0] = some world ∧
      ∃ final, world.run MemStore.store .canonical
          [.queryAndSeal 0 .valid, .append 0 [3, 4, 5] 2, .timeout 0 0] = some final ∧
        ∃ chunk, final.chunks[0]? = some chunk ∧ chunk.size = 2 ∧
          (chunk.queryAndSeal MemStore.store .valid final.store).1 = .ok 2 := by
  refine ⟨_, rfl, ?_⟩
  rcases seal_final MemStore.spec .canonical ∅
    [.createChunk .valid ⟨0, 1⟩, .append 0 [7] 5, .append 0 [1, 2] 0] (by decide)
    rfl (show (World.chunks _)[0]? = some _ from rfl) (show _ = Except.ok 2 from rfl) with
    ⟨-, -, frozen⟩
  rcases frozen [.append 0 [3, 4, 5] 2, .timeout 0 0] (by decide) with
    ⟨final, ran, chunk, found, size, -, -, -, again⟩
  exact ⟨final, ran, chunk, found, size, again MemStore.spec_sealSucceeds⟩

end World

end Pain.Manusya
