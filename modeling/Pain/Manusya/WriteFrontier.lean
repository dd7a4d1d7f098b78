import Pain.Base.UuidText
import Pain.Manusya.MemStore
import Pain.Manusya.Steps

/-!
# Waiting appends and the write frontier

The drain loop sees only the requests that are linked into the queue, and the
queue links one request for each offset. A second append at an offset at which
one already waits gets no place in the queue: nothing but its timer will ever
answer it, and the write frontier can pass it.

This file proves that this is the only way to be left behind. In every run in
which no append starts to wait at an offset at which a call of the same chunk
still waits, every waiting call lies beyond the frontier of its chunk.
-/

namespace Pain.Manusya

namespace Chunk

variable {σ H : Type}

/-- An append at `offset` would start to wait at an offset at which a call already waits. -/
def waitsTwice (offset : ℕ) (chunk : Chunk H) : Bool :=
  chunk.state ≠ .kSealed && chunk.size < offset &&
    chunk.calls.any (fun entry => entry.promise = .future && entry.offset = offset)

/-- Every call that waits for its outcome is linked into the queue. -/
def Linked (chunk : Chunk H) : Prop :=
  ∀ (call : ℕ) (entry : AppendCall), chunk.calls[call]? = some entry → entry.promise = .future →
    ∃ rq ∈ chunk.appendRequestQueue.items, rq.call = call

/-- Every call that waits for its outcome asks for an offset beyond the write frontier. -/
def NoneBehind (chunk : Chunk H) : Prop :=
  ∀ entry ∈ chunk.calls, entry.promise = .future → chunk.size < entry.offset

theorem noneBehind_of_linked {chunk : Chunk H} (waiting : chunk.Waiting) (drained : chunk.Drained)
    (linked : chunk.Linked) : chunk.NoneBehind := by
  intro entry member pending
  rcases List.mem_iff_getElem?.mp member with ⟨call, found⟩
  rcases linked call entry found pending with ⟨rq, rqMem, rfl⟩
  have same := waiting rq rqMem
  simp only [found, Option.some.injEq] at same
  have beyond := drained rq rqMem
  simp only [same]
  exact beyond

theorem Linked.answer {chunk : Chunk H} (linked : chunk.Linked) (offset : ℕ) (buf : Bytes)
    (status : Status) : (chunk.answer offset buf status).Linked := by
  intro call entry found pending
  simp only [Chunk.answer] at found
  rcases lt_or_ge call chunk.calls.length with old | new
  · simp only [List.getElem?_append_left old] at found
    exact linked call entry found pending
  · simp only [List.getElem?_append_right new] at found
    have same := List.mem_of_getElem? found
    simp only [List.mem_singleton] at same
    subst same
    simp at pending

theorem Linked.release {chunk : Chunk H} (linked : chunk.Linked) (call : ℕ) (status : Status) :
    (chunk.release call status).Linked := by
  intro other entry found pending
  simp only [Chunk.release, getElem?_setPromise] at found
  rcases Option.map_eq_some_iff.mp found with ⟨before, foundBefore, rfl⟩
  by_cases same : call = other
  · simp [same] at pending
  · simp only [same, if_false] at pending
    rcases linked other before foundBefore pending with ⟨rq, rqMem, rqCall⟩
    exact ⟨rq, mem_unlink_items.mpr ⟨rqMem, by rw [rqCall]; exact Ne.symm same⟩, rqCall⟩

/-- A request at an offset at which no call waits finds its place in the queue. -/
theorem Linked.enqueue {chunk : Chunk H} (linked : chunk.Linked) (waiting : chunk.Waiting)
    {offset : ℕ} (fresh : ∀ entry ∈ chunk.calls, entry.promise = .future → entry.offset ≠ offset)
    (buf : Bytes) : (chunk.enqueue offset buf).Linked := by
  intro call entry found pending
  simp only [Chunk.enqueue] at found
  rcases lt_or_ge call chunk.calls.length with old | new
  · simp only [List.getElem?_append_left old] at found
    rcases linked call entry found pending with ⟨rq, rqMem, rqCall⟩
    exact ⟨rq, Lib.IntrusiveSet.mem_insertList_of_mem _ rqMem, rqCall⟩
  · have last : call = chunk.calls.length := by
      have inside := (List.getElem?_eq_some_iff.mp found).1
      simp only [List.length_append, List.length_singleton] at inside
      omega
    refine ⟨⟨chunk.calls.length, offset, buf⟩, Lib.IntrusiveSet.mem_insertList_self ?_, last.symm⟩
    intro rq rqMem sameOffset
    exact fresh _ (List.mem_of_getElem? (waiting rq rqMem)) rfl sameOffset

theorem DrainTurn.linked {store : Store σ H} {before after : Chunk H × σ}
    (turn : DrainTurn store before after) (linked : before.1.Linked) : after.1.Linked := by
  cases turn with
  | reject => exact linked.release _ _
  | write =>
      rename_i chunk state rq rest front reached written
      have grown : ({ chunk with size := chunk.size + rq.buf.length } : Chunk H).Linked := linked
      exact grown.release _ _
  | fail => exact linked.release _ _

theorem linked_of_drainTurns {store : Store σ H} {before after : Chunk H × σ}
    (turns : Relation.ReflTransGen (DrainTurn store) before after)
    (linked : before.1.Linked) : after.1.Linked := by
  induction turns with
  | refl => exact linked
  | tail _ turn ih => exact turn.linked ih

/-- The queue holds every waiting call, and every one of them beyond the frontier. -/
structure InOrder (chunk : Chunk H) : Prop where
  waiting : chunk.Waiting
  drained : chunk.Drained
  linked : chunk.Linked

theorem Drained.enqueue {chunk : Chunk H} (drained : chunk.Drained) {offset : ℕ}
    (beyond : chunk.size < offset) (buf : Bytes) : (chunk.enqueue offset buf).Drained := by
  intro rq member
  rcases Lib.IntrusiveSet.mem_insertList member with rfl | old
  · exact beyond
  · exact drained rq old

theorem Appended.inOrder {store : Store σ H} {buf : Bytes} {offset : ℕ} {chunk : Chunk H}
    {state : σ} {after : Chunk H × σ} (appended : Appended store buf offset chunk state after)
    (once : chunk.waitsTwice offset = false) (inOrder : chunk.InOrder) : after.1.InOrder := by
  refine ⟨appended.waiting inOrder.waiting, ?_, ?_⟩
  · cases appended with
    | refused => exact inOrder.drained
    | queued unsealed beyond => exact inOrder.drained.enqueue beyond buf
    | failed => exact inOrder.drained
    | written unsealed reached ok drains drained => exact drained
  · cases appended with
    | refused => exact inOrder.linked.answer _ _ _
    | queued unsealed beyond =>
        refine inOrder.linked.enqueue inOrder.waiting ?_ buf
        intro entry member pending sameOffset
        have twice : chunk.waitsTwice offset = true := by
          simp only [waitsTwice, Bool.and_eq_true, decide_eq_true_eq, List.any_eq_true]
          exact ⟨⟨unsealed, beyond⟩, entry, member, pending, sameOffset⟩
        simp only [twice] at once
        contradiction
    | failed => exact inOrder.linked.answer _ _ _
    | written unsealed reached ok drains drained =>
        have grown : ({ chunk with size := chunk.size + buf.length } : Chunk H).Linked :=
          inOrder.linked
        exact (linked_of_drainTurns drains grown).answer _ _ _

theorem InOrder.release {chunk : Chunk H} (inOrder : chunk.InOrder) (call : ℕ)
    (status : Status) : (chunk.release call status).InOrder where
  waiting := inOrder.waiting.release call status
  drained := fun rq member => inOrder.drained rq (mem_unlink_items.mp member).1
  linked := inOrder.linked.release call status

end Chunk

namespace World

variable {σ H : Type} {store : Store σ H} {text : UUID.Text}

/-- The event is not an append that would wait where a call already waits. -/
def WaitsOnce (world : World σ H) : Event → Prop
  | .append pointer _ offset =>
      ∀ (chunk : Chunk H), world.chunks[pointer]? = some chunk → chunk.waitsTwice offset = false
  | _ => True

/-- What holds of every chunk object. -/
def InOrder (world : World σ H) : Prop :=
  ∀ (pointer : ℕ) (chunk : Chunk H), world.chunks[pointer]? = some chunk → chunk.InOrder

theorem InOrder.put {world : World σ H} (inOrder : world.InOrder) {pointer : ℕ}
    {old chunk : Chunk H} {state : σ} (present : world.chunks[pointer]? = some old)
    (changed : chunk.InOrder) : (world.put pointer chunk state).InOrder :=
  forall_put present changed (fun other found _ => inOrder other found)

theorem Stepped.inOrder {world next : World σ H} {event : Event}
    (stepped : Stepped store text world event next) (once : world.WaitsOnce event)
    (inOrder : world.InOrder) : next.InOrder := by
  cases stepped with
  | idle => exact inOrder
  | notCreated => exact inOrder
  | created opens =>
      intro pointer chunk found
      rcases getElem?_adopt.mp found with old | ⟨-, rfl⟩
      · exact inOrder _ _ old
      · exact ⟨by simp [Chunk.Waiting, Chunk.opened], by simp [Chunk.Drained, Chunk.opened],
          by simp [Chunk.Linked, Chunk.opened]⟩
  | removed => exact inOrder
  | appended present appended =>
      exact inOrder.put present (appended.inOrder (once _ present) (inOrder _ _ present))
  | timedOut present pending => exact inOrder.put present ((inOrder _ _ present).release _ _)
  | read present => exact inOrder
  | queriedAndSealed present called =>
      apply inOrder.put present
      have old := inOrder _ _ present
      cases called with
      | null => exact old
      | sealFailed => exact old
      | sizeFailed => exact old
      | done sized => exact ⟨old.waiting, old.drained, old.linked⟩

/-- No append is left behind the write frontier. In a run in which no append starts to wait at an
offset at which another call of the same chunk waits, nothing aborts, and every call that waits in
the state reached asks for an offset beyond the size of its chunk. -/
theorem waiting_beyond_frontier (store : Store σ H) (text : UUID.Text) (state : σ)
    (events : List Event)
    (once : Lib.Guarded (step store text) WaitsOnce (initial state) events) :
    ∃ world, (initial state).run store text events = some world ∧
      ∀ (pointer : ℕ) (chunk : Chunk H), world.chunks[pointer]? = some chunk →
        chunk.NoneBehind := by
  have start : (initial state : World σ H).InOrder := by
    intro pointer chunk found
    simp [initial] at found
  have safe : ∃ world, (initial state).run store text events = some world ∧ world.InOrder := by
    refine Lib.exec_total InOrder ?_ start once
    intro before event holds allowed
    rcases step_spec store text (fun pointer chunk found => (holds pointer chunk found).waiting)
      event with ⟨next, took, stepped⟩
    exact ⟨next, took, stepped.inOrder allowed holds⟩
  rcases safe with ⟨world, ran, inOrder⟩
  refine ⟨world, ran, ?_⟩
  intro pointer chunk found
  have ordered := inOrder pointer chunk found
  exact Chunk.noneBehind_of_linked ordered.waiting ordered.drained ordered.linked

/-- Two calls wait at different offsets, and a third one drains the first of them. -/
theorem waiting_beyond_frontier_memStore :
    ∃ world, (initial ∅).run MemStore.store .canonical
        [.createChunk .valid ⟨0, 1⟩, .append 0 [7] 5, .append 0 [8] 9,
          .append 0 [1, 2, 3, 4, 5] 0] = some world ∧
      ∀ (pointer : ℕ) (chunk : Chunk Bytes), world.chunks[pointer]? = some chunk →
        chunk.NoneBehind := by
  apply waiting_beyond_frontier MemStore.store .canonical ∅ _
  refine Lib.guarded_cons trivial rfl (Lib.guarded_cons ?_ rfl (Lib.guarded_cons ?_ rfl
    (Lib.guarded_cons ?_ rfl trivial)))
  all_goals
    intro chunk found
    cases found
    decide

/-- Two calls wait at offset 5 and only the first is linked. The append of the five bytes before
it drains that one and leaves the second waiting behind a frontier of 6. -/
theorem not_noneBehind_duplicate_offset :
    ¬ ∀ (events : List Event) (world : World MemStore Bytes),
      (initial ∅).run MemStore.store .canonical events = some world →
        ∀ (pointer : ℕ) (chunk : Chunk Bytes), world.chunks[pointer]? = some chunk →
          chunk.NoneBehind := by
  intro always
  have behind := always
    [.createChunk .valid ⟨0, 1⟩, .append 0 [7] 5, .append 0 [8] 5, .append 0 [1, 2, 3, 4, 5] 0]
    _ rfl 0 _ rfl ⟨5, [8], .future⟩ (by decide) rfl
  exact absurd behind (by decide)

end World

end Pain.Manusya
