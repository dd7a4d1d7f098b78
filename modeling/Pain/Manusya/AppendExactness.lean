import Pain.Base.UuidText
import Pain.Lib.Extent
import Pain.Manusya.MemStore
import Pain.Manusya.Steps

/-!
# Acknowledged appends are exactly what the file holds

A call of `append` is acknowledged when its outcome is `OK`. This file proves
that, as long as no chunk is removed, the file of a chunk is at all times the
data of its acknowledged calls in offset order, and that an outcome is set
once.

The invariant keeps the acknowledged calls in the order in which the store took
them: they tile the file from its start, since every write goes to the frontier.
Sorting them by offset rearranges at most calls with empty buffers.
-/

namespace Pain.Manusya

open Lib (Extent)
open Lib.Extent (payload Tiles byOffset)

/-- The bytes of a call and where they belong. -/
def AppendCall.extent (call : AppendCall) : Extent UInt8 where
  offset := call.offset
  data := call.buf

/-- The outcome of the call is `OK`. -/
def AppendCall.isAcknowledged (call : AppendCall) : Bool :=
  call.promise = .result Status.OK

namespace Chunk

variable {σ H : Type}

/-- What the calls with outcome `OK` asked to write. -/
def acknowledged (chunk : Chunk H) : List (Extent UInt8) :=
  (chunk.calls.filter AppendCall.isAcknowledged).map AppendCall.extent

/-- The acknowledged calls and the ones in flight, in some order, tile the chunk and spell
`data`. A call is in flight while the drain loop runs on its behalf: the store has taken its
bytes and its outcome is not set. -/
def Exact (chunk : Chunk H) (inFlight : List (Extent UInt8)) (data : Bytes) : Prop :=
  ∃ order : List (Extent UInt8),
    order.Perm (chunk.acknowledged ++ inFlight) ∧ Tiles 0 order chunk.size ∧
      payload order = data

/-- The size of the chunk is the length of its file. -/
theorem Exact.length {chunk : Chunk H} {inFlight : List (Extent UInt8)} {data : Bytes}
    (exactly : chunk.Exact inFlight data) : chunk.size = data.length := by
  rcases exactly with ⟨order, -, tiles, rfl⟩
  simpa using tiles.stop_eq

/-- The file holds what was acknowledged, in the order of the offsets. -/
theorem Exact.eq_payload {chunk : Chunk H} {data : Bytes} (exactly : chunk.Exact [] data) :
    data = payload (byOffset chunk.acknowledged) := by
  rcases exactly with ⟨order, perm, tiles, rfl⟩
  simp only [List.append_nil] at perm
  refine (tiles.payload_eq_of_perm ?_ (Extent.byOffset_pairwise _)).symm
  exact (Extent.byOffset_perm _).trans perm.symm

/-- The bytes of an append that was acknowledged are in the file, where it put them. -/
theorem Exact.slice {chunk : Chunk H} {data : Bytes} (exactly : chunk.Exact [] data)
    {extent : Extent UInt8} (member : extent ∈ chunk.acknowledged) :
    extent.offset + extent.data.length ≤ data.length ∧
      (data.drop extent.offset).take extent.data.length = extent.data := by
  have length := exactly.length
  rcases exactly with ⟨order, perm, tiles, rfl⟩
  have place := tiles.slice (perm.mem_iff.mpr (List.mem_append_left _ member))
  simp only [length] at place
  simpa using place

theorem acknowledged_answer_of_ne (chunk : Chunk H) (offset : ℕ) (buf : Bytes) {status : Status}
    (notOk : status ≠ Status.OK) :
    (chunk.answer offset buf status).acknowledged = chunk.acknowledged := by
  simp [acknowledged, answer, AppendCall.isAcknowledged, notOk]

theorem acknowledged_answer_ok (chunk : Chunk H) (offset : ℕ) (buf : Bytes) :
    (chunk.answer offset buf Status.OK).acknowledged = chunk.acknowledged ++ [⟨offset, buf⟩] := by
  simp [acknowledged, answer, AppendCall.isAcknowledged, AppendCall.extent]

theorem acknowledged_enqueue (chunk : Chunk H) (offset : ℕ) (buf : Bytes) :
    (chunk.enqueue offset buf).acknowledged = chunk.acknowledged := by
  simp [acknowledged, enqueue, AppendCall.isAcknowledged]

theorem release_calls {chunk : Chunk H} {call offset : ℕ} {buf : Bytes}
    (pending : chunk.calls[call]? = some ⟨offset, buf, .future⟩) (status : Status) :
    ∃ before after, chunk.calls = before ++ ⟨offset, buf, .future⟩ :: after ∧
      (chunk.release call status).calls = before ++ ⟨offset, buf, .result status⟩ :: after := by
  rcases List.getElem?_eq_some_iff.mp pending with ⟨inside, same⟩
  rcases List.exists_of_modify (fun entry : AppendCall => { entry with promise := .result status })
    inside with ⟨before, entry, after, split, length, modified⟩
  have entry_eq : entry = ⟨offset, buf, .future⟩ := by
    simp only [split, List.getElem?_append_right length.le] at pending
    simpa [length] using pending
  subst entry_eq
  exact ⟨before, after, split, modified⟩

theorem acknowledged_release_of_ne {chunk : Chunk H} {call offset : ℕ} {buf : Bytes}
    (pending : chunk.calls[call]? = some ⟨offset, buf, .future⟩) {status : Status}
    (notOk : status ≠ Status.OK) :
    (chunk.release call status).acknowledged = chunk.acknowledged := by
  rcases release_calls pending status with ⟨before, after, old, new⟩
  simp [acknowledged, old, new, AppendCall.isAcknowledged, notOk]

theorem acknowledged_release_ok {chunk : Chunk H} {call offset : ℕ} {buf : Bytes}
    (pending : chunk.calls[call]? = some ⟨offset, buf, .future⟩) :
    (chunk.acknowledged ++ [Extent.mk offset buf]).Perm
      (chunk.release call Status.OK).acknowledged := by
  rcases release_calls pending Status.OK with ⟨before, after, old, new⟩
  simp only [acknowledged, old, new, List.filter_append, List.filter_cons,
    AppendCall.isAcknowledged, List.map_append, reduceCtorEq, decide_false, Bool.false_eq_true,
    if_false, decide_true, if_true, List.map_cons, List.append_assoc]
  exact List.Perm.append_left _ (List.perm_append_singleton _ _)

theorem Exact.of_acknowledged_eq {chunk changed : Chunk H} {inFlight : List (Extent UInt8)}
    {data : Bytes} (exactly : chunk.Exact inFlight data) (sameSize : changed.size = chunk.size)
    (same : changed.acknowledged = chunk.acknowledged) : changed.Exact inFlight data := by
  rcases exactly with ⟨order, perm, tiles, spelled⟩
  exact ⟨order, same ▸ perm, sameSize ▸ tiles, spelled⟩

/-- Bytes written at the frontier keep the file exact once their call is acknowledged or in
flight. -/
theorem Exact.extend {chunk changed : Chunk H} {inFlight inFlight' : List (Extent UInt8)}
    {data buf : Bytes} {offset : ℕ} (exactly : chunk.Exact inFlight data)
    (reached : offset = chunk.size) (grown : changed.size = chunk.size + buf.length)
    (accounted : (chunk.acknowledged ++ inFlight ++ [Extent.mk offset buf]).Perm
      (changed.acknowledged ++ inFlight')) :
    changed.Exact inFlight' (data ++ buf) := by
  rcases exactly with ⟨order, perm, tiles, spelled⟩
  refine ⟨order ++ [⟨offset, buf⟩], (perm.append_right _).trans accounted, ?_, ?_⟩
  · simp only [grown]
    exact tiles.snoc reached
  · simp [spelled]

/-- The file behind the chunk's handle holds exactly the acknowledged and in-flight bytes. -/
def Backed {store : Store σ H} (spec : store.Spec) (inFlight : List (Extent UInt8))
    (chunk : Chunk H) (state : σ) : Prop :=
  ∃ data, spec.contents state chunk.fh = some data ∧ chunk.Exact inFlight data

end Chunk

/-- From one state of the store to another, no file but the one behind `fh` changed. -/
def Store.Spec.Keeps {σ H : Type} {store : Store σ H} (spec : store.Spec) (fh : H)
    (before after : σ) : Prop :=
  ∀ other data, other ≠ fh → spec.contents before other = some data →
    spec.contents after other = some data

theorem Store.Spec.Keeps.trans {σ H : Type} {store : Store σ H} {spec : store.Spec} {fh : H}
    {first second third : σ} (left : spec.Keeps fh first second)
    (right : spec.Keeps fh second third) : spec.Keeps fh first third := by
  intro other data different held
  exact right other data different (left other data different held)

namespace Chunk

variable {σ H : Type} {store : Store σ H} {inFlight : List (Extent UInt8)}

theorem DrainTurn.keeps (spec : store.Spec) {before after : Chunk H × σ}
    (turn : DrainTurn store before after) : spec.Keeps before.1.fh before.2 after.2 := by
  cases turn with
  | reject => exact fun _ _ _ => id
  | write =>
      intro other value different otherHeld
      exact spec.append_other _ _ different otherHeld
  | fail =>
      intro other value different otherHeld
      exact spec.append_other _ _ different otherHeld

theorem keeps_of_drainTurns (spec : store.Spec) {before after : Chunk H × σ}
    (turns : Relation.ReflTransGen (DrainTurn store) before after) :
    spec.Keeps before.1.fh before.2 after.2 := by
  induction turns with
  | refl => exact fun _ _ _ => id
  | tail earlier turn ih =>
      have keptOn := turn.keeps spec
      simp only [(same_file_of_drainTurns earlier).1] at keptOn
      exact ih.trans keptOn

/-- A call of `append` changes no file but that of its own chunk, whatever the file holds. -/
theorem Appended.keeps (spec : store.Spec) {buf : Bytes} {offset : ℕ} {chunk : Chunk H}
    {state : σ} {after : Chunk H × σ} (appended : Appended store buf offset chunk state after) :
    spec.Keeps chunk.fh state after.2 := by
  have appendKept : spec.Keeps chunk.fh state (store.append chunk.fh offset buf state).2 := by
    intro other value different otherHeld
    exact spec.append_other _ _ different otherHeld
  cases appended with
  | refused => exact fun _ _ _ => id
  | queued => exact fun _ _ _ => id
  | failed => exact appendKept
  | written unsealed reached ok drains drained =>
      exact appendKept.trans (keeps_of_drainTurns spec drains)

/-- A turn of the drain loop keeps the file exact. -/
theorem DrainTurn.backed (spec : store.Spec) {before after : Chunk H × σ}
    (turn : DrainTurn store before after) (waiting : before.1.Waiting)
    (backed : before.1.Backed spec inFlight before.2) : after.1.Backed spec inFlight after.2 := by
  rcases backed with ⟨data, held, exactly⟩
  cases turn with
  | reject front behind =>
      have pending := waiting _ (by rw [front]; exact List.mem_cons_self)
      refine ⟨data, held, exactly.of_acknowledged_eq rfl (acknowledged_release_of_ne pending ?_)⟩
      simp [invalidOffset, Status.fail]
  | write front reached written =>
      rename_i chunk state rq rest
      have pending := waiting _ (by rw [front]; exact List.mem_cons_self)
      have grown : ({ chunk with size := chunk.size + rq.buf.length } : Chunk H).calls[rq.call]? =
          some ⟨rq.offset, rq.buf, .future⟩ := pending
      refine ⟨data ++ rq.buf, spec.append_ok _ _ held written, exactly.extend reached rfl ?_⟩
      refine List.Perm.trans ?_ ((acknowledged_release_ok grown).append_right _)
      simp only [List.append_assoc, List.append_assoc]
      exact List.perm_append_comm.append_left _
  | fail front reached failed =>
      have pending := waiting _ (by rw [front]; exact List.mem_cons_self)
      refine ⟨data, spec.append_error _ _ held failed, ?_⟩
      exact exactly.of_acknowledged_eq rfl (acknowledged_release_of_ne pending failed)

/-- The drain loop keeps the file exact. -/
theorem backed_of_drainTurns (spec : store.Spec) {before after : Chunk H × σ}
    (turns : Relation.ReflTransGen (DrainTurn store) before after) (waiting : before.1.Waiting)
    (backed : before.1.Backed spec inFlight before.2) : after.1.Backed spec inFlight after.2 := by
  induction turns with
  | refl => exact backed
  | tail earlier turn ih => exact turn.backed spec (waiting_of_drainTurns earlier waiting) ih

/-- An append keeps the file exact. -/
theorem Appended.backed (spec : store.Spec) {buf : Bytes} {offset : ℕ} {chunk : Chunk H}
    {state : σ} {after : Chunk H × σ} (appended : Appended store buf offset chunk state after)
    (waiting : chunk.Waiting) (backed : chunk.Backed spec [] state) :
    after.1.Backed spec [] after.2 := by
  rcases backed with ⟨data, held, exactly⟩
  cases appended with
  | refused notOk reason =>
      refine ⟨data, held, ?_⟩
      exact exactly.of_acknowledged_eq rfl (acknowledged_answer_of_ne chunk offset buf notOk)
  | queued unsealed beyond =>
      refine ⟨data, held, ?_⟩
      exact exactly.of_acknowledged_eq rfl (acknowledged_enqueue chunk offset buf)
  | failed unsealed reached notOk =>
      refine ⟨data, spec.append_error _ _ held notOk, ?_⟩
      exact exactly.of_acknowledged_eq rfl (acknowledged_answer_of_ne chunk offset buf notOk)
  | @written unsealed reached ok after drains drained =>
      have startWaiting : ({ chunk with size := chunk.size + buf.length } : Chunk H).Waiting :=
        waiting
      have startBacked : Backed spec [⟨offset, buf⟩] { chunk with size := chunk.size + buf.length }
          (store.append chunk.fh offset buf state).2 := by
        refine ⟨data ++ buf, spec.append_ok _ _ held ok, exactly.extend reached rfl ?_⟩
        simp only [List.append_nil]
        exact List.Perm.refl _
      rcases backed_of_drainTurns spec drains startWaiting startBacked with
        ⟨final, finalHeld, order, perm, tiles, spelled⟩
      refine ⟨final, finalHeld, order, ?_, tiles, spelled⟩
      simp only [acknowledged_answer_ok, List.append_nil]
      exact perm

end Chunk

namespace World

variable {σ H : Type} {store : Store σ H}

/-- Not a step of `Bank::remove_chunk`. -/
def Event.keepsFiles : Event → Bool
  | .removeChunk _ => false
  | _ => true

/-- Every chunk's file holds exactly what the chunk has acknowledged, and no two chunks share a
handle. -/
structure Backed (spec : store.Spec) (world : World σ H) : Prop where
  waiting : world.Waiting
  chunks : ∀ (pointer : ℕ) (chunk : Chunk H), world.chunks[pointer]? = some chunk →
    chunk.Backed spec [] world.store
  distinct : ∀ (left right : ℕ) (leftChunk rightChunk : Chunk H),
    world.chunks[left]? = some leftChunk → world.chunks[right]? = some rightChunk →
      leftChunk.fh = rightChunk.fh → left = right

/-- A new chunk server has no chunks. -/
theorem initial_backed (spec : store.Spec) (state : σ) : (initial state).Backed spec where
  waiting := initial_waiting state
  chunks := by
    intro pointer chunk found
    simp [initial] at found
  distinct := by
    intro left right leftChunk rightChunk found
    simp [initial] at found

theorem Backed.withStore {spec : store.Spec} {world : World σ H} {state : σ}
    (backed : world.Backed spec)
    (kept : ∀ (pointer : ℕ) (chunk : Chunk H) (data : Bytes),
      world.chunks[pointer]? = some chunk → spec.contents world.store chunk.fh = some data →
        spec.contents state chunk.fh = some data) :
    ({ world with store := state } : World σ H).Backed spec where
  waiting := backed.waiting
  chunks := by
    intro pointer chunk found
    rcases backed.chunks pointer chunk found with ⟨data, held, exactly⟩
    exact ⟨data, kept pointer chunk data found held, exactly⟩
  distinct := backed.distinct

theorem Backed.put {spec : store.Spec} {world : World σ H} {pointer : ℕ} {old chunk : Chunk H}
    {state : σ} (backed : world.Backed spec) (present : world.chunks[pointer]? = some old)
    (waiting : (world.put pointer chunk state).Waiting)
    (sameHandle : chunk.fh = old.fh) (changed : chunk.Backed spec [] state)
    (kept : spec.Keeps old.fh world.store state) :
    (world.put pointer chunk state).Backed spec where
  waiting := waiting
  chunks := by
    refine forall_put present changed ?_
    intro other found different foundAt
    rcases backed.chunks other found foundAt with ⟨data, held, exactly⟩
    refine ⟨data, kept found.fh data ?_ held, exactly⟩
    intro sameFile
    exact different (backed.distinct other pointer found old foundAt present sameFile).symm
  distinct := by
    have handles : ∀ (other : ℕ) (found : Chunk H),
        (world.put pointer chunk state).chunks[other]? = some found →
          ∃ before, world.chunks[other]? = some before ∧ before.fh = found.fh := by
      refine forall_put present ?_ ?_
      · exact ⟨old, present, sameHandle.symm⟩
      · exact fun other found _ foundAt => ⟨found, foundAt, rfl⟩
    intro left right leftChunk rightChunk leftAt rightAt same
    rcases handles left leftChunk leftAt with ⟨leftOld, leftOldAt, leftHandle⟩
    rcases handles right rightChunk rightAt with ⟨rightOld, rightOldAt, rightHandle⟩
    apply backed.distinct left right leftOld rightOld leftOldAt rightOldAt
    simp only [leftHandle, rightHandle, same]

theorem Backed.created {spec : store.Spec} {world : World σ H} {path : Bytes} {uuid : UUID}
    {fh : H} {state : σ} (backed : world.Backed spec)
    (waiting : (world.adopt (Chunk.opened uuid fh 0) state).Waiting)
    (opens : store.openFile path .createExclusive world.store = (.ok fh, state)) :
    (world.adopt (Chunk.opened uuid fh 0) state).Backed spec where
  waiting := waiting
  chunks := by
    intro pointer chunk found
    rcases getElem?_adopt.mp found with old | ⟨-, rfl⟩
    · rcases backed.chunks pointer chunk old with ⟨data, held, exactly⟩
      have kept : spec.contents (store.openFile path .createExclusive world.store).2 chunk.fh =
          some data := spec.create_other held
      simp only [opens] at kept
      exact ⟨data, kept, exactly⟩
    · refine ⟨[], (spec.create_ok opens).2, [], ?_, ?_, rfl⟩
      · simp [Chunk.acknowledged, Chunk.opened]
      · simp [Chunk.opened]
  distinct := by
    have fresh : ∀ (pointer : ℕ) (chunk : Chunk H), world.chunks[pointer]? = some chunk →
        chunk.fh ≠ fh := by
      intro pointer chunk found sameHandle
      rcases backed.chunks pointer chunk found with ⟨data, held, -⟩
      simp only [sameHandle, (spec.create_ok opens).1] at held
      simp at held
    intro left right leftChunk rightChunk leftAt rightAt same
    rcases getElem?_adopt.mp leftAt with leftOld | ⟨leftLast, rfl⟩ <;>
      rcases getElem?_adopt.mp rightAt with rightOld | ⟨rightLast, rfl⟩
    · exact backed.distinct left right leftChunk rightChunk leftOld rightOld same
    · exact absurd same (fresh left leftChunk leftOld)
    · exact absurd same.symm (fresh right rightChunk rightOld)
    · simp only [leftLast, rightLast]

/-- Every step of the chunk server keeps all files exact. -/
theorem Stepped.backed (spec : store.Spec) {text : UUID.Text} {world next : World σ H}
    {event : Event} (stepped : Stepped store text world event next)
    (allowed : event.keepsFiles = true) (backed : world.Backed spec) : next.Backed spec := by
  have nextWaiting := stepped.waiting backed.waiting
  cases stepped with
  | idle => exact backed
  | notCreated => exact backed.withStore (fun _ _ _ _ held => spec.create_other held)
  | created opens => exact backed.created nextWaiting opens
  | removed present => simp [Event.keepsFiles] at allowed
  | appended present appended =>
      have changed := appended.backed spec (backed.waiting _ _ present)
        (backed.chunks _ _ present)
      exact backed.put present nextWaiting appended.same_file.1 changed (appended.keeps spec)
  | timedOut present pending =>
      refine backed.put present nextWaiting rfl ?_ (fun _ _ _ => id)
      rcases backed.chunks _ _ present with ⟨data, held, exactly⟩
      refine ⟨data, held, exactly.of_acknowledged_eq rfl ?_⟩
      exact Chunk.acknowledged_release_of_ne pending (by simp [Chunk.invalidOffset, Status.fail])
  | read present => exact backed.withStore (fun _ _ _ _ held => spec.read_other _ _ _ _ held)
  | @queriedAndSealed pointer length chunk result present called =>
      rcases backed.chunks _ _ present with ⟨data, held, exactly⟩
      have heldSealed := spec.sealFile_other chunk.fh held
      have keptSealed : spec.Keeps chunk.fh world.store (store.sealFile chunk.fh world.store).2 :=
        fun other value _ otherHeld => spec.sealFile_other chunk.fh otherHeld
      have keptSized : spec.Keeps chunk.fh (store.sealFile chunk.fh world.store).2
          (store.size chunk.fh (store.sealFile chunk.fh world.store).2).2 :=
        fun other value _ otherHeld => spec.size_other heldSealed otherHeld
      have heldSized := spec.size_other heldSealed heldSealed
      cases called with
      | null => exact backed.put present nextWaiting rfl ⟨data, held, exactly⟩ (fun _ _ _ => id)
      | sealFailed =>
          exact backed.put present nextWaiting rfl ⟨data, heldSealed, exactly⟩ keptSealed
      | sizeFailed =>
          exact backed.put present nextWaiting rfl ⟨data, heldSized, exactly⟩
            (keptSealed.trans keptSized)
      | done sized =>
          exact backed.put present nextWaiting rfl ⟨data, heldSized, exactly⟩
            (keptSealed.trans keptSized)

/-- A run without removals does not abort and keeps every chunk backed. -/
theorem run_backed (spec : store.Spec) (text : UUID.Text) {world : World σ H}
    (backed : world.Backed spec) {events : List Event}
    (allowed : ∀ event ∈ events, event.keepsFiles = true) :
    ∃ final, world.run store text events = some final ∧ final.Backed spec := by
  refine Lib.exec_total (Backed spec) ?_ backed (Lib.guarded_of_forall_mem allowed)
  intro before event holds eventAllowed
  rcases step_spec store text holds.waiting event with ⟨next, took, stepped⟩
  exact ⟨next, took, stepped.backed spec eventAllowed holds⟩

/-- Acknowledged appends are exact. Let any number of chunks share a store whose appends take the
whole buffer or fail without effect. Whatever sequence of sections runs, none aborts, and in every
state reached the file of a chunk has length `_size` and holds the buffers of the acknowledged
calls in offset order, each at its own offset, and nothing else. An outcome that is set stays. -/
theorem append_exact (spec : store.Spec) (text : UUID.Text) (state : σ) (events : List Event)
    (allowed : ∀ event ∈ events, event.keepsFiles = true) :
    ∃ world, (initial state).run store text events = some world ∧
      (∀ (pointer : ℕ) (chunk : Chunk H), world.chunks[pointer]? = some chunk →
        ∃ data, spec.contents world.store chunk.fh = some data ∧ chunk.size = data.length ∧
          data = payload (byOffset chunk.acknowledged) ∧
          ∀ extent ∈ chunk.acknowledged,
            extent.offset + extent.data.length ≤ data.length ∧
              (data.drop extent.offset).take extent.data.length = extent.data) ∧
      ∀ (later : List Event) (final : World σ H), world.run store text later = some final →
        ∀ (pointer : ℕ) (chunk : Chunk H), world.chunks[pointer]? = some chunk →
          ∃ chunk', final.chunks[pointer]? = some chunk' ∧
            ∀ (call : ℕ) (entry : AppendCall), chunk.calls[call]? = some entry →
              entry.promise ≠ .future → chunk'.calls[call]? = some entry := by
  rcases run_backed spec text (initial_backed spec state) allowed with ⟨world, ran, backed⟩
  refine ⟨world, ran, ?_, ?_⟩
  · intro pointer chunk found
    rcases backed.chunks pointer chunk found with ⟨data, held, exactly⟩
    refine ⟨data, held, exactly.length, exactly.eq_payload, ?_⟩
    exact fun extent member => exactly.slice member
  · intro later final ranLater pointer chunk found
    rcases run_evolves backed.waiting ranLater pointer chunk found with ⟨chunk', found', evolves⟩
    refine ⟨chunk', found', ?_⟩
    intro call entry foundCall settled
    rcases evolves call entry foundCall with ⟨promise, foundLater, stays⟩
    simp only [stays settled] at foundLater
    exact foundLater

/-- Two chunks on an in-memory store: an append that waits, the one that drains it, one that is
late, and a timer. -/
theorem append_exact_memStore :
    ∃ world, (initial ∅).run MemStore.store .canonical
        [.createChunk .valid ⟨0, 1⟩, .createChunk .valid ⟨0, 2⟩, .append 0 [3] 2,
          .append 1 [9] 4, .append 0 [1, 2] 0, .append 0 [7] 1, .timeout 1 0] = some world ∧
      ∀ (pointer : ℕ) (chunk : Chunk Bytes), world.chunks[pointer]? = some chunk →
        ∃ data, MemStore.spec.contents world.store chunk.fh = some data ∧
          data = payload (byOffset chunk.acknowledged) := by
  rcases append_exact MemStore.spec .canonical ∅
    [.createChunk .valid ⟨0, 1⟩, .createChunk .valid ⟨0, 2⟩, .append 0 [3] 2,
      .append 1 [9] 4, .append 0 [1, 2] 0, .append 0 [7] 1, .timeout 1 0] (by decide) with
    ⟨world, ran, exactly, -⟩
  refine ⟨world, ran, ?_⟩
  intro pointer chunk found
  rcases exactly pointer chunk found with ⟨data, held, -, spelled, -⟩
  exact ⟨data, held, spelled⟩

end World

end Pain.Manusya
