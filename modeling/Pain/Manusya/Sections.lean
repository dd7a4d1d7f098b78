import Pain.Manusya.ReadRange
import Pain.Manusya.Removal

/-!
# What holds between two store calls

`Threads` cuts the sections of a chunk at their store calls. This file says once
what one step between two cuts can do to a chunk, its section and the store, and
proves of it what the coarser model has of whole sections: on an in-memory store
the file of a chunk holds the acknowledged bytes and those in flight, a chunk
never shrinks, a sealed chunk keeps its size, and the bank keeps its entry, as
long as the chunk is not removed.
-/

namespace Pain.Manusya

open Lib (Extent)

namespace Section

variable {H : Type}

/-- What the holder of the mutex has written for a call whose outcome is not set yet. -/
def inFlight : Section H → List (Extent UInt8)
  | .draining buf offset => [⟨offset, buf⟩]
  | .free | .sizing | .reading _ _ _ _ => []

end Section

namespace Threads

variable {σ H : Type}

/-- What a step does to the chunk whose mutex it holds, to its section and to the store. -/
inductive SectionStep (store : Store σ H) (text : UUID.Text) :
    Chunk H × Section H × σ → Chunk H × Section H × σ → Prop where
  | refused {chunk : Chunk H} {state : σ} {buf : Bytes} {offset : ℕ} {status : Status}
      (notOk : status ≠ Status.OK) (reason : chunk.state = .kSealed ∨ offset < chunk.size) :
      SectionStep store text (chunk, .free, state) (chunk.answer offset buf status, .free, state)
  | queued {chunk : Chunk H} {state : σ} {buf : Bytes} {offset : ℕ}
      (unsealed : chunk.state ≠ .kSealed) (beyond : chunk.size < offset) :
      SectionStep store text (chunk, .free, state) (chunk.enqueue offset buf, .free, state)
  | failed {chunk : Chunk H} {state : σ} {buf : Bytes} {offset : ℕ}
      (unsealed : chunk.state ≠ .kSealed) (reached : offset = chunk.size)
      (notOk : (store.append chunk.fh offset buf state).1 ≠ Status.OK) :
      SectionStep store text (chunk, .free, state)
        (chunk.answer offset buf (store.append chunk.fh offset buf state).1, .free,
          (store.append chunk.fh offset buf state).2)
  | accepted {chunk : Chunk H} {state : σ} {buf : Bytes} {offset : ℕ}
      (unsealed : chunk.state ≠ .kSealed) (reached : offset = chunk.size)
      (ok : (store.append chunk.fh offset buf state).1 = Status.OK) :
      SectionStep store text (chunk, .free, state)
        ({ chunk with size := chunk.size + buf.length }, .draining buf offset,
          (store.append chunk.fh offset buf state).2)
  | turned {chunk next : Chunk H} {state nextState : σ} {buf : Bytes} {offset : ℕ}
      (turn : Chunk.DrainTurn store (chunk, state) (next, nextState)) :
      SectionStep store text (chunk, .draining buf offset, state)
        (next, .draining buf offset, nextState)
  | drained {chunk : Chunk H} {state : σ} {buf : Bytes} {offset : ℕ} :
      SectionStep store text (chunk, .draining buf offset, state)
        (chunk.answer offset buf Status.OK, .free, state)
  | timedOut {chunk : Chunk H} {state : σ} {call offset : ℕ} {buf : Bytes}
      (pending : chunk.calls[call]? = some ⟨offset, buf, .future⟩) :
      SectionStep store text (chunk, .free, state)
        (chunk.release call (Chunk.invalidOffset offset buf.length chunk.size), .free, state)
  | notOpened {chunk : Chunk H} {state : σ} :
      SectionStep store text (chunk, .free, state)
        (chunk, .free, (store.openFile (text.str chunk.uuid) .rdonly state).2)
  | opened {chunk : Chunk H} {state : σ} {fh : H} {offset size : ℕ} {buf : Bytes}
      (opens : (store.openFile (text.str chunk.uuid) .rdonly state).1 = .ok fh) :
      SectionStep store text (chunk, .free, state)
        (chunk, .reading fh offset size buf,
          (store.openFile (text.str chunk.uuid) .rdonly state).2)
  | read {chunk : Chunk H} {state : σ} {fh : H} {offset size : ℕ} {buf : Bytes} :
      SectionStep store text (chunk, .reading fh offset size buf, state)
        (chunk, .free, store.close fh (store.read fh offset size buf state).2)
  | notSealed {chunk : Chunk H} {state : σ} :
      SectionStep store text (chunk, .free, state)
        (chunk, .free, (store.sealFile chunk.fh state).2)
  | sizing {chunk : Chunk H} {state : σ} :
      SectionStep store text (chunk, .free, state)
        (chunk, .sizing, (store.sealFile chunk.fh state).2)
  | notSized {chunk : Chunk H} {state : σ} :
      SectionStep store text (chunk, .sizing, state)
        (chunk, .free, (store.size chunk.fh state).2)
  | done {chunk : Chunk H} {state : σ} {length : ℕ}
      (sized : (store.size chunk.fh state).1 = .ok length) :
      SectionStep store text (chunk, .sizing, state)
        ({ chunk with state := .kSealed }, .free, (store.size chunk.fh state).2)

/-- What a step does. -/
inductive Taken (store : Store σ H) (text : UUID.Text) (threads : Threads σ H) :
    Turn → Threads σ H → Prop where
  | idle {turn : Turn} : Taken store text threads turn threads
  | ofBank {event : World.Event} {world : World σ H}
      (asked : (∃ chunk uuid, event = .createChunk chunk uuid) ∨
        ∃ uuid, event = .removeChunk uuid)
      (stepped : World.Stepped store text threads.world event world) :
      Taken store text threads (.start event) { threads with world := world }
  | inSection {turn : Turn} {pointer : ℕ} {chunk next : Chunk H} {before after : Section H}
      {state : σ} (present : threads.world.chunks[pointer]? = some chunk)
      (held : threads.sections pointer = before)
      (whose : before = .free ∨ turn = .resume pointer)
      (stepped : SectionStep store text (chunk, before, threads.world.store)
        (next, after, state)) :
      Taken store text threads turn
        (threads.hold pointer after (threads.world.put pointer next state))

theorem free_of_available {pointer : ℕ} {threads : Threads σ H} {chunk : Chunk H}
    (free : threads.available pointer = some chunk) :
    threads.sections pointer = .free ∧ threads.world.chunks[pointer]? = some chunk := by
  unfold available at free
  split at free
  · rename_i isFree
    exact ⟨isFree, free⟩
  · cases free

section Steps

variable {store : Store σ H} {text : UUID.Text} {threads : Threads σ H} {pointer : ℕ}
  {chunk : Chunk H}

/-- A step that changes neither the chunk nor who holds its mutex. -/
theorem hold_store (present : threads.world.chunks[pointer]? = some chunk) (state : σ) :
    threads.hold pointer (threads.sections pointer) (threads.world.put pointer chunk state) =
      { threads with world := { threads.world with store := state } } := by
  simp [hold, World.put_self present]

theorem hold_free (free : threads.sections pointer = .free) (world : World σ H) :
    threads.hold pointer .free world = { threads with world := world } := by
  rw [← free]
  simp [hold]

theorem startAppend_taken (free : threads.sections pointer = .free)
    (present : threads.world.chunks[pointer]? = some chunk) (event : World.Event) (buf : Bytes)
    (offset : ℕ) :
    Taken store text threads (.start event)
      (threads.startAppend store pointer buf offset chunk) := by
  have entered := chunk.beginAppend_spec store buf offset threads.world.store
  unfold startAppend
  revert entered
  generalize chunk.beginAppend store buf offset threads.world.store = entry
  intro entered
  cases entered with
  | refused notOk reason =>
      simp only [← hold_free free]
      exact .inSection present free (.inl rfl) (.refused notOk reason)
  | queued unsealed beyond =>
      simp only [← hold_free free]
      exact .inSection present free (.inl rfl) (.queued unsealed beyond)
  | failed unsealed reached notOk =>
      simp only [← hold_free free]
      exact .inSection present free (.inl rfl) (.failed unsealed reached notOk)
  | accepted unsealed reached ok =>
      exact .inSection present free (.inl rfl) (.accepted unsealed reached ok)

theorem startRead_taken (free : threads.sections pointer = .free)
    (present : threads.world.chunks[pointer]? = some chunk) (event : World.Event)
    (offset size : UInt64) (buf : Option Bytes) :
    Taken store text threads (.start event)
      (threads.startRead store text pointer offset size buf chunk) := by
  unfold startRead
  cases buf with
  | none => exact .idle
  | some buf =>
      simp only
      split
      · exact .idle
      cases opens : store.openFile (text.str chunk.uuid) .rdonly threads.world.store with
      | mk result state =>
          have sameState : state =
              (store.openFile (text.str chunk.uuid) .rdonly threads.world.store).2 := by
            rw [opens]
          cases result with
          | error failure =>
              simp only [← hold_store present, free, sameState]
              exact .inSection present free (.inl rfl) .notOpened
          | ok fh =>
              simp only [← World.put_self present, sameState]
              exact .inSection present free (.inl rfl) (.opened (by rw [opens]))

theorem startQueryAndSeal_taken (free : threads.sections pointer = .free)
    (present : threads.world.chunks[pointer]? = some chunk) (event : World.Event)
    (length : OutPointer) :
    Taken store text threads (.start event)
      (threads.startQueryAndSeal store pointer length chunk) := by
  unfold startQueryAndSeal
  split
  · exact .idle
  cases called : store.sealFile chunk.fh threads.world.store with
  | mk status state =>
      have sameState : state = (store.sealFile chunk.fh threads.world.store).2 := by rw [called]
      cases status with
      | error failure =>
          simp only [← hold_store present, free, sameState]
          exact .inSection present free (.inl rfl) .notSealed
      | ok =>
          simp only [← World.put_self present, sameState]
          exact .inSection present free (.inl rfl) .sizing

theorem resume_taken (waiting : chunk.Waiting)
    (present : threads.world.chunks[pointer]? = some chunk) :
    ∃ next, threads.resume store pointer chunk = some next ∧
      Taken store text threads (.resume pointer) next := by
  unfold resume
  cases holder : threads.sections pointer with
  | free => exact ⟨threads, rfl, .idle⟩
  | draining buf offset =>
      rcases chunk.drainStep_spec store threads.world.store waiting with
        ⟨done, -⟩ | ⟨next, state, took, turned⟩
      · simp only [done]
        exact ⟨_, rfl, .inSection present holder (.inr rfl) .drained⟩
      · simp only [took]
        refine ⟨_, rfl, ?_⟩
        have same : threads.hold pointer (.draining buf offset)
            (threads.world.put pointer next state) =
              { threads with world := threads.world.put pointer next state } := by
          rw [← holder]
          simp [hold]
        rw [← same]
        exact .inSection present holder (.inr rfl) (.turned turned)
  | sizing =>
      cases sized : store.size chunk.fh threads.world.store with
      | mk result state =>
          have sameState : state = (store.size chunk.fh threads.world.store).2 := by rw [sized]
          cases result with
          | error failure =>
              refine ⟨_, rfl, ?_⟩
              simp only [← World.put_self present, sameState]
              exact .inSection present holder (.inr rfl) .notSized
          | ok length =>
              refine ⟨_, rfl, ?_⟩
              simp only [sameState]
              exact .inSection present holder (.inr rfl) (.done (by rw [sized]))
  | reading fh offset size buf =>
      refine ⟨_, rfl, ?_⟩
      simp only [← World.put_self present]
      exact .inSection present holder (.inr rfl) .read

/-- No step aborts from threads whose queues are tied to their promises. -/
theorem step_spec (store : Store σ H) (text : UUID.Text) (waiting : threads.world.Waiting)
    (turn : Turn) :
    ∃ next, threads.step store text turn = some next ∧ Taken store text threads turn next := by
  cases turn with
  | resume pointer =>
      simp only [step]
      cases present : threads.world.chunks[pointer]? with
      | none => exact ⟨threads, rfl, .idle⟩
      | some chunk => exact resume_taken (waiting _ _ present) present
  | start event =>
      cases event with
      | createChunk chunk uuid =>
          exact ⟨_, rfl, .ofBank (.inl ⟨chunk, uuid, rfl⟩)
            (threads.world.createChunk_stepped store text chunk uuid)⟩
      | removeChunk uuid =>
          exact ⟨_, rfl, .ofBank (.inr ⟨uuid, rfl⟩) (World.stepped_of_step waiting rfl)⟩
      | append pointer buf offset =>
          simp only [step]
          cases free : threads.available pointer with
          | none => exact ⟨threads, rfl, .idle⟩
          | some chunk =>
              rcases free_of_available free with ⟨isFree, present⟩
              exact ⟨_, rfl, startAppend_taken isFree present _ buf offset⟩
      | timeout pointer call =>
          simp only [step]
          cases free : threads.available pointer with
          | none => exact ⟨threads, rfl, .idle⟩
          | some chunk =>
              rcases free_of_available free with ⟨isFree, present⟩
              rcases chunk.timeout_spec call with settled | ⟨offset, buf, pending, fired⟩
              · refine ⟨threads, ?_, .idle⟩
                simp [settled, World.put_self present]
              · simp only [fired, Option.map_some, ← hold_free isFree]
                exact ⟨_, rfl, .inSection present isFree (.inl rfl) (.timedOut pending)⟩
      | read pointer offset size buf =>
          simp only [step]
          cases free : threads.available pointer with
          | none => exact ⟨threads, rfl, .idle⟩
          | some chunk =>
              rcases free_of_available free with ⟨isFree, present⟩
              exact ⟨_, rfl, startRead_taken isFree present _ offset size buf⟩
      | queryAndSeal pointer length =>
          simp only [step]
          cases free : threads.available pointer with
          | none => exact ⟨threads, rfl, .idle⟩
          | some chunk =>
              rcases free_of_available free with ⟨isFree, present⟩
              exact ⟨_, rfl, startQueryAndSeal_taken isFree present _ length⟩

end Steps

end Threads

namespace Chunk

variable {σ H : Type} {store : Store σ H}

/-- A later state of the same chunk: calls and outcomes stay, the size does not shrink, and once
the chunk is sealed the size stays. -/
structure Grows (before after : Chunk H) : Prop where
  uuid : after.uuid = before.uuid
  evolves : before.Evolves after
  size : before.size ≤ after.size
  stays : before.state = .kSealed → after.state = .kSealed ∧ after.size = before.size

theorem Grows.refl (chunk : Chunk H) : chunk.Grows chunk where
  uuid := rfl
  evolves := .refl chunk
  size := le_rfl
  stays := fun isSealed => ⟨isSealed, rfl⟩

theorem Grows.trans {first second third : Chunk H} (left : first.Grows second)
    (right : second.Grows third) : first.Grows third where
  uuid := right.uuid.trans left.uuid
  evolves := left.evolves.trans right.evolves
  size := left.size.trans right.size
  stays := by
    intro isSealed
    have first := left.stays isSealed
    have second := right.stays first.1
    exact ⟨second.1, second.2.trans first.2⟩

theorem DrainTurn.grows {before after : Chunk H × σ} (turn : DrainTurn store before after)
    (waiting : before.1.Waiting) (unsealed : before.1.state ≠ .kSealed) :
    before.1.Grows after.1 ∧ after.1.state ≠ .kSealed where
  left := by
    refine ⟨turn.same_file.2, turn.evolves waiting, ?_, fun isSealed => absurd isSealed unsealed⟩
    cases turn with
    | reject => exact le_rfl
    | write => exact Nat.le_add_right _ _
    | fail => exact le_rfl
  right := by
    cases turn <;> exact unsealed

end Chunk

namespace Threads

/-- No file but that of the chunk changes. -/
theorem SectionStep.keeps {text : UUID.Text} {before after : Chunk Bytes × Section Bytes × MemStore}
    (stepped : SectionStep MemStore.store text before after) :
    MemStore.spec.Keeps before.1.fh before.2.2 after.2.2 := by
  cases stepped with
  | refused | queued | drained | timedOut | notSealed | sizing => exact fun _ _ _ => id
  | @failed _ _ buf offset | @accepted _ _ buf offset =>
      intro other data different held
      exact MemStore.spec.append_other offset buf different held
  | turned turn => exact turn.keeps MemStore.spec
  | notOpened | opened =>
      intro other data _ held
      simp only [MemStore.openFile_rdonly_files]
      exact held
  | read | notSized | done =>
      intro other data _ held
      exact MemStore.subscript_preserves _ held

/-- What holds of a chunk while `holder` has its mutex. If the chunk has the identifier, then its
file has the bytes that have been acknowledged and those in flight. -/
structure Kept (text : UUID.Text) (uuid : UUID) (chunk : Chunk Bytes) (holder : Section Bytes)
    (files : MemStore) : Prop where
  waiting : chunk.Waiting
  named : chunk.fh = text.str chunk.uuid
  backed : chunk.uuid = uuid → chunk.Backed MemStore.spec holder.inFlight files
  draining : ∀ buf offset, holder = .draining buf offset → chunk.state ≠ .kSealed
  reading : ∀ fh offset size buf, holder = .reading fh offset size buf → fh = chunk.fh

/-- A step that leaves the chunk and what is in flight alone. -/
theorem Kept.withFiles {text : UUID.Text} {uuid : UUID} {chunk : Chunk Bytes}
    {holder next : Section Bytes} {files later : MemStore}
    (kept : Kept text uuid chunk holder files) (same : next.inFlight = holder.inFlight)
    (draining : ∀ buf offset, next ≠ .draining buf offset)
    (reading : ∀ fh offset size buf, next = .reading fh offset size buf → fh = chunk.fh)
    (held : ∀ data, files[chunk.fh]? = some data → later[chunk.fh]? = some data) :
    Kept text uuid chunk next later where
  waiting := kept.waiting
  named := kept.named
  backed := by
    intro isChunk
    rcases kept.backed isChunk with ⟨data, contents, exactly⟩
    exact ⟨data, held data contents, same ▸ exactly⟩
  draining := fun buf offset isDraining => absurd isDraining (draining buf offset)
  reading := reading

theorem SectionStep.kept {text : UUID.Text} {uuid : UUID}
    {before after : Chunk Bytes × Section Bytes × MemStore}
    (stepped : SectionStep MemStore.store text before after)
    (kept : Kept text uuid before.1 before.2.1 before.2.2) :
    Kept text uuid after.1 after.2.1 after.2.2 := by
  have exact_answer : ∀ {chunk : Chunk Bytes} {files : MemStore} {status : Status} (offset : ℕ)
      (buf : Bytes), status ≠ Status.OK → chunk.Backed MemStore.spec [] files →
        (chunk.answer offset buf status).Backed MemStore.spec [] files := by
    rintro chunk files status offset buf notOk ⟨data, held, exactly⟩
    exact ⟨data, held, exactly.of_acknowledged_eq rfl
      (Chunk.acknowledged_answer_of_ne chunk offset buf notOk)⟩
  cases stepped with
  | refused notOk reason =>
      refine ⟨kept.waiting.answer _ _ _, kept.named, ?_, (by simp), (by simp)⟩
      exact fun isChunk => exact_answer _ _ notOk (kept.backed isChunk)
  | queued unsealed beyond =>
      refine ⟨kept.waiting.enqueue _ _, kept.named, ?_, (by simp), (by simp)⟩
      intro isChunk
      rcases kept.backed isChunk with ⟨data, held, exactly⟩
      exact ⟨data, held, exactly.of_acknowledged_eq rfl (Chunk.acknowledged_enqueue _ _ _)⟩
  | failed unsealed reached notOk => exact absurd rfl notOk
  | @accepted chunk files buf offset unsealed reached ok =>
      refine ⟨kept.waiting, kept.named, ?_, fun _ _ _ => unsealed, (by simp)⟩
      intro isChunk
      rcases kept.backed isChunk with ⟨data, held, exactly⟩
      refine ⟨data ++ buf, MemStore.spec.append_ok _ _ held ok, exactly.extend reached rfl ?_⟩
      simp only [Section.inFlight, List.append_nil]
      exact List.Perm.refl _
  | turned turn =>
      have same := turn.same_file
      have grown := turn.grows kept.waiting (kept.draining _ _ rfl)
      refine ⟨turn.waiting kept.waiting, ?_, ?_, fun _ _ _ => grown.2, (by simp)⟩
      · exact same.1.trans (kept.named.trans (congrArg text.str same.2.symm))
      · intro isChunk
        exact turn.backed MemStore.spec kept.waiting (kept.backed (same.2.symm.trans isChunk))
  | drained =>
      refine ⟨kept.waiting.answer _ _ _, kept.named, ?_, (by simp), (by simp)⟩
      intro isChunk
      rcases kept.backed isChunk with ⟨data, held, order, perm, tiles, spelled⟩
      refine ⟨data, held, order, ?_, tiles, spelled⟩
      simp only [Chunk.acknowledged_answer_ok, Section.inFlight, List.append_nil]
      exact perm
  | timedOut pending =>
      refine ⟨kept.waiting.release _ _, kept.named, ?_, (by simp), (by simp)⟩
      intro isChunk
      rcases kept.backed isChunk with ⟨data, held, exactly⟩
      refine ⟨data, held, exactly.of_acknowledged_eq rfl ?_⟩
      exact Chunk.acknowledged_release_of_ne pending (by simp [Chunk.invalidOffset, Status.fail])
  | notOpened =>
      refine kept.withFiles rfl (by simp) (by simp) ?_
      simp only [MemStore.openFile_rdonly_files]
      exact fun _ => id
  | @opened chunk files fh offset size buf opens =>
      refine kept.withFiles rfl (by simp) ?_ ?_
      · intro other offset' size' buf' same
        injection same with sameHandle
        have handle := MemStore.openFile_handle (Prod.ext opens rfl)
        rw [← sameHandle, handle]
        exact kept.named.symm
      · simp only [MemStore.openFile_rdonly_files]
        exact fun _ => id
  | read => exact kept.withFiles rfl (by simp) (by simp) (fun _ => MemStore.subscript_preserves _)
  | notSealed => exact kept.withFiles rfl (by simp) (by simp) (fun _ => id)
  | sizing => exact kept.withFiles rfl (by simp) (by simp) (fun _ => id)
  | notSized => exact kept.withFiles rfl (by simp) (by simp) (fun _ => MemStore.subscript_preserves _)
  | @done chunk files length sized =>
      have sizedOnly : Kept text uuid chunk .free (MemStore.store.size chunk.fh files).2 :=
        kept.withFiles rfl (by simp) (by simp) (fun _ => MemStore.subscript_preserves _)
      exact ⟨sizedOnly.waiting, sizedOnly.named, sizedOnly.backed, (by simp), (by simp)⟩

theorem SectionStep.grows {text : UUID.Text} {uuid : UUID}
    {before after : Chunk Bytes × Section Bytes × MemStore}
    (stepped : SectionStep MemStore.store text before after)
    (kept : Kept text uuid before.1 before.2.1 before.2.2) : before.1.Grows after.1 := by
  cases stepped with
  | refused | failed | drained =>
      exact ⟨rfl, Chunk.evolves_answer _ _ _ _, le_rfl, fun isSealed => ⟨isSealed, rfl⟩⟩
  | queued => exact ⟨rfl, Chunk.evolves_enqueue _ _ _, le_rfl, fun isSealed => ⟨isSealed, rfl⟩⟩
  | accepted unsealed =>
      exact ⟨rfl, .refl _, Nat.le_add_right _ _, fun isSealed => absurd isSealed unsealed⟩
  | turned turn => exact (turn.grows kept.waiting (kept.draining _ _ rfl)).1
  | timedOut pending =>
      exact ⟨rfl, Chunk.evolves_release pending _, le_rfl, fun isSealed => ⟨isSealed, rfl⟩⟩
  | notOpened | opened | read | notSealed | sizing | notSized => exact .refl _
  | done => exact ⟨rfl, .refl _, le_rfl, fun _ => ⟨rfl, rfl⟩⟩

/-- The chunk with the identifier, if there is one, has its file to itself, also between two store
calls of a section. -/
structure OwnsFile (text : UUID.Text) (uuid : UUID) (threads : Threads MemStore Bytes) : Prop where
  kept : ∀ (pointer : ℕ) (chunk : Chunk Bytes), threads.world.chunks[pointer]? = some chunk →
    Kept text uuid chunk (threads.sections pointer) threads.world.store
  unique : ∀ (left right : ℕ) (leftChunk rightChunk : Chunk Bytes),
    threads.world.chunks[left]? = some leftChunk →
      threads.world.chunks[right]? = some rightChunk →
        leftChunk.uuid = uuid → rightChunk.uuid = uuid → left = right
  registered : ∀ pointer, threads.world.bank[uuid]? = some pointer →
    ∃ chunk, threads.world.chunks[pointer]? = some chunk ∧ chunk.uuid = uuid
  allocated : ∀ pointer, threads.sections pointer ≠ .free →
    ∃ chunk, threads.world.chunks[pointer]? = some chunk

theorem OwnsFile.waiting {text : UUID.Text} {uuid : UUID} {threads : Threads MemStore Bytes}
    (owns : threads.OwnsFile text uuid) : threads.world.Waiting :=
  fun pointer chunk found => (owns.kept pointer chunk found).waiting

theorem initial_ownsFile (text : UUID.Text) (uuid : UUID) :
    (idle (World.initial ∅)).OwnsFile text uuid where
  kept := by simp [idle, World.initial]
  unique := by simp [idle, World.initial]
  registered := by simp [idle, World.initial]
  allocated := by simp [idle]

/-- What a later state keeps of an earlier one: the chunk objects, and the entry of the bank for
the identifier. -/
structure Grows (uuid : UUID) (before after : Threads MemStore Bytes) : Prop where
  chunks : ∀ (pointer : ℕ) (chunk : Chunk Bytes), before.world.chunks[pointer]? = some chunk →
    ∃ later, after.world.chunks[pointer]? = some later ∧ chunk.Grows later
  bank : ∀ pointer, before.world.bank[uuid]? = some pointer →
    after.world.bank[uuid]? = some pointer

theorem Grows.refl (uuid : UUID) (threads : Threads MemStore Bytes) :
    threads.Grows uuid threads where
  chunks := fun _ chunk found => ⟨chunk, found, .refl chunk⟩
  bank := fun _ => id

theorem Grows.trans {uuid : UUID} {first second third : Threads MemStore Bytes}
    (left : first.Grows uuid second) (right : second.Grows uuid third) :
    first.Grows uuid third where
  chunks := by
    intro pointer chunk found
    rcases left.chunks pointer chunk found with ⟨middle, middleFound, grown⟩
    rcases right.chunks pointer middle middleFound with ⟨last, lastFound, grownLater⟩
    exact ⟨last, lastFound, grown.trans grownLater⟩
  bank := fun pointer found => right.bank pointer (left.bank pointer found)

section Owner

variable {text : UUID.Text} {uuid : UUID} {threads : Threads MemStore Bytes}

/-- A step of the bank that adds no chunk object. -/
theorem OwnsFile.withBank (owns : threads.OwnsFile text uuid) {files : MemStore}
    {bank : Map UUID ℕ}
    (kept : ∀ data, threads.world.store[text.str uuid]? = some data →
      files[text.str uuid]? = some data)
    (same : bank[uuid]? = threads.world.bank[uuid]?) :
    OwnsFile text uuid { threads with world := ⟨files, threads.world.chunks, bank⟩ } ∧
      threads.Grows uuid { threads with world := ⟨files, threads.world.chunks, bank⟩ } := by
  refine ⟨⟨?_, owns.unique, ?_, owns.allocated⟩, ⟨?_, ?_⟩⟩
  · intro pointer chunk found
    have before := owns.kept pointer chunk found
    refine ⟨before.waiting, before.named, ?_, before.draining, before.reading⟩
    intro isChunk
    rcases before.backed isChunk with ⟨data, held, exactly⟩
    have handle : chunk.fh = text.str uuid := isChunk ▸ before.named
    simp only [MemStore.spec, handle] at held
    refine ⟨data, ?_, exactly⟩
    simp only [MemStore.spec, handle]
    exact kept data held
  · intro pointer found
    exact owns.registered pointer (same ▸ found)
  · exact fun _ chunk found => ⟨chunk, found, .refl chunk⟩
  · intro pointer found
    exact same.trans found

theorem OwnsFile.created (owns : threads.OwnsFile text uuid) {drawn : UUID} {fh : Bytes}
    {files : MemStore}
    (opens : MemStore.store.openFile (text.str drawn) .createExclusive threads.world.store =
      (.ok fh, files)) :
    OwnsFile text uuid
        { threads with world := threads.world.adopt (Chunk.opened drawn fh 0) files } ∧
      threads.Grows uuid
        { threads with world := threads.world.adopt (Chunk.opened drawn fh 0) files } := by
  have handle : fh = text.str drawn := MemStore.openFile_handle opens
  subst handle
  have created := MemStore.spec.create_ok opens
  have absent : ∀ (pointer : ℕ) (chunk : Chunk Bytes),
      threads.world.chunks[pointer]? = some chunk → drawn = uuid → chunk.uuid ≠ uuid := by
    intro pointer chunk found isDrawn isChunk
    rcases (owns.kept pointer chunk found).backed isChunk with ⟨data, held, -⟩
    have sameHandle : chunk.fh = text.str drawn := by
      rw [(owns.kept pointer chunk found).named, isChunk, isDrawn]
    rw [sameHandle, created.1] at held
    cases held
  have unregistered : ∀ pointer, threads.world.bank[uuid]? = some pointer → drawn ≠ uuid := by
    intro pointer found isDrawn
    rcases owns.registered pointer found with ⟨chunk, present, isChunk⟩
    exact absent pointer chunk present isDrawn isChunk
  have bank : (threads.world.adopt (Chunk.opened drawn (text.str drawn) 0) files).bank[uuid]? =
      if drawn = uuid then some threads.world.chunks.length
      else threads.world.bank[uuid]? := by
    simp [World.adopt, Chunk.opened, Std.ExtTreeMap.getElem?_insert]
  refine ⟨⟨?_, ?_, ?_, ?_⟩, ⟨?_, ?_⟩⟩
  · intro pointer chunk found
    rcases World.getElem?_adopt.mp found with old | ⟨last, rfl⟩
    · have before := owns.kept pointer chunk old
      refine ⟨before.waiting, before.named, ?_, before.draining, before.reading⟩
      intro isChunk
      rcases before.backed isChunk with ⟨data, held, exactly⟩
      have kept : MemStore.spec.contents
          (MemStore.store.openFile (text.str drawn) .createExclusive threads.world.store).2
            chunk.fh = some data := MemStore.spec.create_other held
      rw [opens] at kept
      exact ⟨data, kept, exactly⟩
    · have free : threads.sections pointer = .free := by
        by_contra held
        rcases owns.allocated pointer held with ⟨chunk, present⟩
        have inside := (List.getElem?_eq_some_iff.mp present).1
        omega
      simp only [free]
      refine ⟨?_, rfl, ?_, (by simp), (by simp)⟩
      · intro rq member
        simp [Chunk.opened] at member
      · intro isChunk
        refine ⟨[], created.2, [], ?_, ?_, rfl⟩
        · simp [Chunk.acknowledged, Chunk.opened, Section.inFlight]
        · simp [Chunk.opened]
  · intro left right leftChunk rightChunk leftAt rightAt isLeft isRight
    rcases World.getElem?_adopt.mp leftAt with leftOld | ⟨leftLast, rfl⟩
    · rcases World.getElem?_adopt.mp rightAt with rightOld | ⟨rightLast, rfl⟩
      · exact owns.unique left right leftChunk rightChunk leftOld rightOld isLeft isRight
      · exact absurd isLeft (absent left leftChunk leftOld isRight)
    · rcases World.getElem?_adopt.mp rightAt with rightOld | ⟨rightLast, rfl⟩
      · exact absurd isRight (absent right rightChunk rightOld isLeft)
      · exact leftLast.trans rightLast.symm
  · intro pointer found
    rw [bank] at found
    split at found
    · rename_i isDrawn
      simp only [Option.some.injEq] at found
      exact ⟨_, World.getElem?_adopt.mpr (.inr ⟨found.symm, rfl⟩), isDrawn⟩
    · rcases owns.registered pointer found with ⟨chunk, present, isChunk⟩
      exact ⟨chunk, World.getElem?_adopt.mpr (.inl present), isChunk⟩
  · intro pointer held
    rcases owns.allocated pointer held with ⟨chunk, present⟩
    exact ⟨chunk, World.getElem?_adopt.mpr (.inl present)⟩
  · exact fun _ chunk found => ⟨chunk, World.getElem?_adopt.mpr (.inl found), .refl chunk⟩
  · intro pointer found
    rw [bank, if_neg (unregistered pointer found)]
    exact found

theorem OwnsFile.inSection (owns : threads.OwnsFile text uuid) {pointer : ℕ}
    {chunk next : Chunk Bytes} {after : Section Bytes} {files : MemStore}
    (present : threads.world.chunks[pointer]? = some chunk)
    (stepped : SectionStep MemStore.store text
      (chunk, threads.sections pointer, threads.world.store) (next, after, files)) :
    OwnsFile text uuid (threads.hold pointer after (threads.world.put pointer next files)) ∧
      threads.Grows uuid (threads.hold pointer after (threads.world.put pointer next files)) := by
  have before := owns.kept pointer chunk present
  have grown : chunk.Grows next := stepped.grows before
  have keeps : MemStore.spec.Keeps chunk.fh threads.world.store files := stepped.keeps
  have foundBefore : ∀ (other : ℕ) (found : Chunk Bytes),
      (threads.world.put pointer next files).chunks[other]? = some found →
        ∃ earlier, threads.world.chunks[other]? = some earlier ∧ found.uuid = earlier.uuid := by
    refine World.forall_put present ⟨chunk, present, grown.uuid⟩ ?_
    exact fun other found _ foundAt => ⟨found, foundAt, rfl⟩
  have foundAfter : ∀ (other : ℕ) (found : Chunk Bytes), threads.world.chunks[other]? = some found →
      ∃ later, (threads.world.put pointer next files).chunks[other]? = some later ∧
        found.Grows later := by
    intro other found foundAt
    rw [World.getElem?_put present]
    by_cases same : pointer = other
    · subst same
      rw [present, Option.some.injEq] at foundAt
      exact ⟨next, by simp, foundAt ▸ grown⟩
    · exact ⟨found, by simp [same, foundAt], .refl found⟩
  refine ⟨⟨?_, ?_, ?_, ?_⟩, ⟨foundAfter, fun _ => id⟩⟩
  · refine World.forall_put present ?_ ?_
    · simp only [hold, Function.update_self]
      exact stepped.kept before
    · intro other found different foundAt
      have others := owns.kept other found foundAt
      simp only [hold, Function.update_of_ne (Ne.symm different)]
      refine ⟨others.waiting, others.named, ?_, others.draining, others.reading⟩
      intro isChunk
      rcases others.backed isChunk with ⟨data, held, exactly⟩
      refine ⟨data, keeps _ _ ?_ held, exactly⟩
      rw [others.named, before.named]
      intro same
      have sameUuid := text.str_inj.mp same
      exact different (owns.unique pointer other chunk found present foundAt
        (sameUuid.symm.trans isChunk) isChunk)
  · intro left right leftChunk rightChunk leftAt rightAt isLeft isRight
    rcases foundBefore left leftChunk leftAt with ⟨leftOld, leftOldAt, sameLeft⟩
    rcases foundBefore right rightChunk rightAt with ⟨rightOld, rightOldAt, sameRight⟩
    exact owns.unique left right leftOld rightOld leftOldAt rightOldAt (sameLeft ▸ isLeft)
      (sameRight ▸ isRight)
  · intro other found
    rcases owns.registered other found with ⟨entry, foundAt, isChunk⟩
    rcases foundAfter other entry foundAt with ⟨later, laterAt, laterGrown⟩
    exact ⟨later, laterAt, laterGrown.uuid.trans isChunk⟩
  · intro other held
    by_cases same : other = pointer
    · rcases foundAfter pointer chunk present with ⟨later, laterAt, -⟩
      exact ⟨later, same ▸ laterAt⟩
    · simp only [hold, Function.update_of_ne same] at held
      rcases owns.allocated other held with ⟨entry, foundAt⟩
      rcases foundAfter other entry foundAt with ⟨later, laterAt, -⟩
      exact ⟨later, laterAt⟩

/-- A step that does not remove the chunk leaves it its file, and what is there stays. -/
theorem Taken.ownsFile {turn : Turn} {next : Threads MemStore Bytes}
    (taken : Taken MemStore.store text threads turn next)
    (notRemoved : turn ≠ .start (.removeChunk uuid)) (owns : threads.OwnsFile text uuid) :
    next.OwnsFile text uuid ∧ threads.Grows uuid next := by
  cases taken with
  | idle => exact ⟨owns, .refl uuid threads⟩
  | ofBank asked stepped =>
      cases stepped with
      | idle => exact ⟨owns, .refl uuid threads⟩
      | notCreated =>
          exact owns.withBank (fun data held => MemStore.spec.create_other held) rfl
      | created opens => exact owns.created opens
      | @removed other pointer present =>
          have different : other ≠ uuid := by
            rintro rfl
            exact notRemoved rfl
          apply owns.withBank
          · intro data held
            simpa [MemStore.store, MemStore.remove, Std.ExtTreeMap.getElem?_erase,
              Std.compare_eq_iff_eq, different] using held
          · simp [Std.ExtTreeMap.getElem?_erase, different]
      | appended => simp at asked
      | timedOut => simp at asked
      | read => simp at asked
      | queriedAndSealed => simp at asked
  | inSection present held whose stepped => exact owns.inSection present (held ▸ stepped)

end Owner

end Threads

end Pain.Manusya
