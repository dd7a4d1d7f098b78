import Pain.Manusya.Steps

/-!
# The chunk server at the granularity of store calls

A section that a chunk's mutex protects may call the store more than once, and
the mutex of the chunk does not stop `Bank::remove_chunk`, which takes the
mutex of the bank. This file cuts the sections at their store calls. While a
section is cut, `sections` records what the holder of the mutex has still to do,
and no other section of the same chunk can start.

Cut where nothing comes in between, a section is the step of `World` that it
was: `step_of_resumes` runs any step of the coarser model call by call.
-/

namespace Pain.Manusya

/-- What the holder of a chunk's mutex does next. -/
inductive Section (H : Type) where
  | free
  | draining (buf : Bytes) (offset : ℕ)
  | sizing
  | reading (fh : H) (offset size : ℕ) (buf : Bytes)

/-- The chunk server, and for each chunk object the section that holds its mutex. -/
structure Threads (σ H : Type) where
  world : World σ H
  sections : ℕ → Section H

namespace Threads

variable {σ H : Type}

/-- No mutex is held. -/
def idle (world : World σ H) : Threads σ H where
  world := world
  sections := fun _ => .free

/-- The mutex of a chunk goes from one section to the next. -/
def hold (pointer : ℕ) (holder : Section H) (world : World σ H) (threads : Threads σ H) :
    Threads σ H where
  world := world
  sections := Function.update threads.sections pointer holder

/-- A step: a request enters a section, or the holder of a mutex makes its next store call. -/
inductive Turn where
  | start (event : World.Event)
  | resume (pointer : ℕ)
deriving DecidableEq

/-- A chunk whose mutex is free. -/
def available (pointer : ℕ) (threads : Threads σ H) : Option (Chunk H) :=
  match threads.sections pointer with
  | .free => threads.world.chunks[pointer]?
  | _ => none

/-- `Chunk::append` up to its first store call. -/
def startAppend (store : Store σ H) (pointer : ℕ) (buf : Bytes) (offset : ℕ)
    (threads : Threads σ H) (chunk : Chunk H) : Threads σ H :=
  match chunk.beginAppend store buf offset threads.world.store with
  | .returned chunk state => { threads with world := threads.world.put pointer chunk state }
  | .draining chunk state =>
      threads.hold pointer (.draining buf offset) (threads.world.put pointer chunk state)

/-- `Chunk::read` up to the open. -/
def startRead (store : Store σ H) (text : UUID.Text) (pointer : ℕ) (offset size : UInt64)
    (buf : Option Bytes) (threads : Threads σ H) (chunk : Chunk H) : Threads σ H :=
  match buf with
  | none => threads
  | some buf =>
      if chunk.size < (offset + size).toNat then threads
      else
        match store.openFile (text.str chunk.uuid) .rdonly threads.world.store with
        | (.error _, state) => { threads with world := { threads.world with store := state } }
        | (.ok fh, state) =>
            threads.hold pointer (.reading fh offset.toNat size.toNat buf)
              { threads.world with store := state }

/-- `Chunk::query_and_seal` up to the seal. -/
def startQueryAndSeal (store : Store σ H) (pointer : ℕ) (length : OutPointer)
    (threads : Threads σ H) (chunk : Chunk H) : Threads σ H :=
  if length = .null then threads
  else
    match store.sealFile chunk.fh threads.world.store with
    | (.error _, state) => { threads with world := { threads.world with store := state } }
    | (.ok _, state) => threads.hold pointer .sizing { threads.world with store := state }

/-- The next store call of the section that holds the mutex of `chunk`. -/
def resume (store : Store σ H) (pointer : ℕ) (threads : Threads σ H) (chunk : Chunk H) :
    Option (Threads σ H) :=
  match threads.sections pointer with
  | .free => some threads
  | .draining buf offset =>
      match chunk.drainStep store threads.world.store with
      | .done =>
          some (threads.hold pointer .free
            (threads.world.put pointer (chunk.answer offset buf Status.OK) threads.world.store))
      | .next chunk state =>
          some { threads with world := threads.world.put pointer chunk state }
      | .aborted => none
  | .sizing =>
      match store.size chunk.fh threads.world.store with
      | (.error _, state) =>
          some (threads.hold pointer .free { threads.world with store := state })
      | (.ok _, state) =>
          some (threads.hold pointer .free
            (threads.world.put pointer { chunk with state := .kSealed } state))
  | .reading fh offset size buf =>
      let (_, state) := store.read fh offset size buf threads.world.store
      some (threads.hold pointer .free { threads.world with store := store.close fh state })

/-- One step. A request that finds the mutex of its chunk held waits, which is no step. -/
def step (store : Store σ H) (text : UUID.Text) (threads : Threads σ H) :
    Turn → Option (Threads σ H)
  | .start (.append pointer buf offset) =>
      match threads.available pointer with
      | none => some threads
      | some chunk => some (threads.startAppend store pointer buf offset chunk)
  | .start (.read pointer offset size buf) =>
      match threads.available pointer with
      | none => some threads
      | some chunk => some (threads.startRead store text pointer offset size buf chunk)
  | .start (.queryAndSeal pointer length) =>
      match threads.available pointer with
      | none => some threads
      | some chunk => some (threads.startQueryAndSeal store pointer length chunk)
  | .start (.timeout pointer call) =>
      match threads.available pointer with
      | none => some threads
      | some chunk =>
          (chunk.timeout call).map
            (fun chunk =>
              { threads with world := threads.world.put pointer chunk threads.world.store })
  | .start (.createChunk chunk uuid) =>
      some { threads with world := (threads.world.createChunk store text chunk uuid).2 }
  | .start (.removeChunk uuid) =>
      some { threads with world := (threads.world.removeChunk store text uuid).2 }
  | .resume pointer =>
      match threads.world.chunks[pointer]? with
      | none => some threads
      | some chunk => threads.resume store pointer chunk

/-- The threads after a sequence of steps. -/
abbrev run (store : Store σ H) (text : UUID.Text) (threads : Threads σ H) (turns : List Turn) :
    Option (Threads σ H) :=
  Lib.exec (step store text) threads turns

theorem step_draining (store : Store σ H) (text : UUID.Text) {world : World σ H} {pointer : ℕ}
    {old : Chunk H} (present : world.chunks[pointer]? = some old) (chunk : Chunk H) (state : σ)
    (buf : Bytes) (offset : ℕ) :
    ((idle world).hold pointer (.draining buf offset) (world.put pointer chunk state)).step store
        text (.resume pointer) =
      match chunk.drainStep store state with
      | .done => some (idle (world.put pointer (chunk.answer offset buf Status.OK) state))
      | .next chunk state =>
          some ((idle world).hold pointer (.draining buf offset) (world.put pointer chunk state))
      | .aborted => none := by
  have held : (world.put pointer chunk state).chunks[pointer]? = some chunk := by
    simp [World.getElem?_put present]
  have sameStore : (world.put pointer chunk state).store = state := rfl
  simp only [step, hold, held, resume, idle, Function.update_self, sameStore]
  cases chunk.drainStep store state with
  | done => simp
  | next chunk state => simp
  | aborted => rfl

theorem run_drain (store : Store σ H) (text : UUID.Text) {world : World σ H} {pointer turns : ℕ}
    {old chunk : Chunk H} {state : σ} {after : Chunk H × σ} (buf : Bytes) (offset : ℕ)
    (present : world.chunks[pointer]? = some old) (waiting : chunk.Waiting)
    (enough : chunk.appendRequestQueue.items.length ≤ turns)
    (drained : chunk.drain store turns state = some after) :
    ∃ count, ((idle world).hold pointer (.draining buf offset)
        (world.put pointer chunk state)).run store text (List.replicate count (.resume pointer)) =
      some (idle (world.put pointer (after.1.answer offset buf Status.OK) after.2)) := by
  induction turns generalizing chunk state with
  | zero =>
      simp only [Chunk.drain, Option.some.injEq] at drained
      subst drained
      have done : chunk.drainStep store state = .done := by
        have empty := List.length_eq_zero_iff.mp (Nat.le_zero.mp enough)
        simp [Chunk.drainStep, Lib.IntrusiveSet.begin?, empty]
      refine ⟨1, ?_⟩
      simp [run, step_draining store text present, done]
  | succ turns ih =>
      simp only [Chunk.drain] at drained
      rcases chunk.drainStep_spec store state waiting with ⟨done, -⟩ | ⟨next, nextState, took, turn⟩
      · simp only [done] at drained
        simp only [Option.some.injEq] at drained
        subst drained
        refine ⟨1, ?_⟩
        simp [run, step_draining store text present, done]
      · simp only [took] at drained
        have shorter := turn.length waiting
        simp only at shorter
        rcases ih (turn.waiting waiting) (by simp only; omega) drained with ⟨count, ran⟩
        refine ⟨count + 1, ?_⟩
        simp only [run, List.replicate_succ, Lib.exec_cons, step_draining store text present, took]
        exact ran

/-- The section of an event, run to its end with nothing in between, leads from `world` to
`next`. -/
def Resumes (store : Store σ H) (text : UUID.Text) (world : World σ H) (event : World.Event)
    (next : World σ H) : Prop :=
  ∃ pointer count, (idle world).run store text
    (.start event :: List.replicate count (.resume pointer)) = some (idle next)

section Sections

variable {store : Store σ H} {text : UUID.Text} {world : World σ H} {pointer : ℕ} {chunk : Chunk H}

theorem append_resumes (waiting : chunk.Waiting) (present : world.chunks[pointer]? = some chunk)
    {buf : Bytes} {offset : ℕ} {after : Chunk H × σ}
    (ran : chunk.append store buf offset world.store = some after) :
    Resumes store text world (.append pointer buf offset) (world.put pointer after.1 after.2) := by
  simp only [Chunk.append] at ran
  cases entered : chunk.beginAppend store buf offset world.store with
  | returned chunk' state =>
      simp only [entered, Option.some.injEq] at ran
      subst ran
      refine ⟨0, 0, ?_⟩
      simp [run, step, available, startAppend, idle, present, entered]
  | draining chunk' state =>
      simp only [entered, Option.map_eq_some_iff] at ran
      rcases ran with ⟨ended, drained, rfl⟩
      have waiting' : chunk'.Waiting := by
        have spec := chunk.beginAppend_spec store buf offset world.store
        simp only [entered] at spec
        cases spec
        exact waiting
      rcases run_drain store text buf offset present waiting' le_rfl drained with ⟨count, ranOn⟩
      refine ⟨pointer, count, ?_⟩
      simp only [run, Lib.exec_cons, step, available, startAppend, idle, present, entered]
      exact ranOn

theorem read_resumes (present : world.chunks[pointer]? = some chunk) (offset size : UInt64)
    (buf : Option Bytes) :
    Resumes store text world (.read pointer offset size buf)
      { world with store := (chunk.read store text offset size buf world.store).2 } := by
  cases buf with
  | none => exact ⟨0, 0, by simp [run, step, available, startRead, idle, present, Chunk.read]⟩
  | some buf =>
      by_cases beyond : chunk.size < (offset + size).toNat
      · exact ⟨0, 0, by
          simp [-UInt64.toNat_add, run, step, available, startRead, idle, present, Chunk.read,
            beyond]⟩
      · cases opened : store.openFile (text.str chunk.uuid) .rdonly world.store with
        | mk result state =>
            cases result with
            | error failure =>
                exact ⟨0, 0, by
                  simp [-UInt64.toNat_add, run, step, available, startRead, idle, present,
                    Chunk.read, beyond, Store.openAndRead, opened]⟩
            | ok fh =>
                exact ⟨pointer, 1, by
                  simp [-UInt64.toNat_add, run, step, available, startRead, idle, present,
                    Chunk.read, beyond, Store.openAndRead, opened, hold, resume]⟩

theorem queryAndSeal_resumes (present : world.chunks[pointer]? = some chunk)
    (length : OutPointer) :
    Resumes store text world (.queryAndSeal pointer length)
      (world.put pointer (chunk.queryAndSeal store length world.store).2.1
        (chunk.queryAndSeal store length world.store).2.2) := by
  unfold Chunk.queryAndSeal
  by_cases null : length = .null
  · exact ⟨0, 0, by
      simp [run, step, available, startQueryAndSeal, idle, present, null,
        World.put_self present]⟩
  · cases sealing : store.sealFile chunk.fh world.store with
    | mk status state =>
        cases status with
        | error failure =>
            exact ⟨0, 0, by
              simp [run, step, available, startQueryAndSeal, idle, present, null, sealing,
                World.put_self present]⟩
        | ok done =>
            cases sizing : store.size chunk.fh state with
            | mk sized state' =>
                cases sized with
                | error failure =>
                    exact ⟨pointer, 1, by
                      simp [run, step, available, startQueryAndSeal, idle, present, null,
                        sealing, sizing, hold, resume, World.put_self present]⟩
                | ok length =>
                    exact ⟨pointer, 1, by
                      simp [run, step, available, startQueryAndSeal, idle, present, null,
                        sealing, sizing, hold, resume, World.put]⟩

end Sections

/-- A step of the coarser model is a section that runs to its end, store call by store call. -/
theorem step_of_resumes (store : Store σ H) (text : UUID.Text) {world next : World σ H}
    (waiting : world.Waiting) {event : World.Event}
    (took : world.step store text event = some next) :
    ∃ pointer count, (idle world).run store text
      (.start event :: List.replicate count (.resume pointer)) = some (idle next) := by
  cases event with
  | createChunk chunk uuid =>
      simp only [World.step, Option.some.injEq] at took
      exact ⟨0, 0, by simp [run, step, idle, took]⟩
  | removeChunk uuid =>
      simp only [World.step, Option.some.injEq] at took
      exact ⟨0, 0, by simp [run, step, idle, took]⟩
  | append pointer buf offset =>
      cases present : world.chunks[pointer]? with
      | none =>
          simp only [World.step, present, Option.some.injEq] at took
          subst took
          exact ⟨0, 0, by simp [run, step, available, idle, present]⟩
      | some chunk =>
          simp only [World.step, present, Option.map_eq_some_iff] at took
          rcases took with ⟨after, ran, rfl⟩
          exact append_resumes (waiting pointer chunk present) present ran
  | timeout pointer call =>
      cases present : world.chunks[pointer]? with
      | none =>
          simp only [World.step, present, Option.some.injEq] at took
          subst took
          exact ⟨0, 0, by simp [run, step, available, idle, present]⟩
      | some chunk =>
          simp only [World.step, present, Option.map_eq_some_iff] at took
          rcases took with ⟨chunk', fired, rfl⟩
          exact ⟨0, 0, by simp [run, step, available, idle, present, fired]⟩
  | read pointer offset size buf =>
      cases present : world.chunks[pointer]? with
      | none =>
          simp only [World.step, present, Option.some.injEq] at took
          subst took
          exact ⟨0, 0, by simp [run, step, available, idle, present]⟩
      | some chunk =>
          simp only [World.step, present, Option.some.injEq] at took
          subst took
          exact read_resumes present offset size buf
  | queryAndSeal pointer length =>
      cases present : world.chunks[pointer]? with
      | none =>
          simp only [World.step, present, Option.some.injEq] at took
          subst took
          exact ⟨0, 0, by simp [run, step, available, idle, present]⟩
      | some chunk =>
          simp only [World.step, present, Option.some.injEq] at took
          subst took
          exact queryAndSeal_resumes present length

end Threads

end Pain.Manusya
