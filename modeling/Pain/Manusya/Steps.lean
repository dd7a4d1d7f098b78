import Pain.Manusya.Bank

/-!
# What the steps of the chunk server can do

This file says once what each mutex-protected section can do, in the form in
which the later files use it. `Waiting` ties the queue to the promises: a
linked request belongs to a call that is still waiting. Under it no section
reaches a failing assertion, the drain loop is a sequence of `DrainTurn`s that
ends with every linked request beyond the write frontier, a call of `append`
ends in one of the four ways of `Appended`, and a step of the whole server is
one of the cases of `World.Stepped`.

Nothing here depends on what the store does.
-/

namespace Pain.Manusya

namespace Chunk

variable {σ H : Type}

/-- Every linked request belongs to a call that still waits for its outcome. -/
def Waiting (chunk : Chunk H) : Prop :=
  ∀ rq ∈ chunk.appendRequestQueue.items,
    chunk.calls[rq.call]? = some ⟨rq.offset, rq.buf, .future⟩

/-- Every linked request lies beyond the write frontier. -/
def Drained (chunk : Chunk H) : Prop :=
  ∀ rq ∈ chunk.appendRequestQueue.items, chunk.size < rq.offset

/-- Unlink a request and give its call an outcome. -/
def release (call : ℕ) (status : Status) (chunk : Chunk H) : Chunk H :=
  (chunk.unlink call).setPromise call (.result status)

@[simp]
theorem getElem?_setPromise (chunk : Chunk H) (call other : ℕ) (promise : FutureState Status) :
    (chunk.setPromise call promise).calls[other]? =
      (chunk.calls[other]?).map
        (fun entry => if call = other then { entry with promise := promise } else entry) := by
  simp only [setPromise, List.getElem?_modify]
  rfl

theorem settle_of_future (chunk : Chunk H) {call offset : ℕ} {buf : Bytes}
    (present : chunk.calls[call]? = some ⟨offset, buf, .future⟩) (status : Status) :
    chunk.settle call status = some (chunk.setPromise call (.result status)) := by
  simp [settle, present, FutureState.setValueIfNotReady_eq, FutureState.available]

theorem mem_unlink_items {chunk : Chunk H} {call : ℕ} {rq : AppendRequest} :
    rq ∈ (chunk.unlink call).appendRequestQueue.items ↔
      rq ∈ chunk.appendRequestQueue.items ∧ rq.call ≠ call := by
  simp [unlink, Lib.IntrusiveSet.unlinkIf]

theorem Waiting.unlink {chunk : Chunk H} (waiting : chunk.Waiting) (call : ℕ) :
    (chunk.unlink call).Waiting := by
  intro rq member
  exact waiting rq (mem_unlink_items.mp member).1

theorem Waiting.release {chunk : Chunk H} (waiting : chunk.Waiting) (call : ℕ)
    (status : Status) : (chunk.release call status).Waiting := by
  intro rq member
  have kept := mem_unlink_items.mp member
  have found := waiting rq kept.1
  have found' : (chunk.unlink call).calls[rq.call]? = some ⟨rq.offset, rq.buf, .future⟩ := found
  rw [Chunk.release, getElem?_setPromise, found']
  simp [kept.2.symm]

theorem Waiting.unlink_items {chunk : Chunk H} (waiting : chunk.Waiting) {rq : AppendRequest}
    {rest : List AppendRequest} (front : chunk.appendRequestQueue.items = rq :: rest) :
    (chunk.unlink rq.call).appendRequestQueue.items = rest := by
  have sorted := chunk.appendRequestQueue.sorted
  rw [front] at sorted
  have later := (List.pairwise_cons.mp sorted).1
  have others : ∀ other ∈ rest, other.call ≠ rq.call := by
    intro other otherMem sameCall
    have first := waiting rq (by simp [front])
    have second := waiting other (by simp [front, otherMem])
    rw [sameCall, first] at second
    have before := later other otherMem
    simp only [Option.some.injEq, AppendCall.mk.injEq] at second
    omega
  simp only [Chunk.unlink, Lib.IntrusiveSet.unlinkIf, front, List.filter_cons, beq_self_eq_true,
    Bool.not_true, Bool.false_eq_true, if_false]
  apply List.filter_eq_self.mpr
  intro other otherMem
  simp [others other otherMem]

theorem Waiting.release_items {chunk : Chunk H} (waiting : chunk.Waiting) {rq : AppendRequest}
    {rest : List AppendRequest} (front : chunk.appendRequestQueue.items = rq :: rest)
    (status : Status) : (chunk.release rq.call status).appendRequestQueue.items = rest :=
  waiting.unlink_items front

/-- One turn of the drain loop: the first request is behind the frontier and is rejected, or it
is at the frontier and the store takes its bytes or fails. -/
inductive DrainTurn (store : Store σ H) : Chunk H × σ → Chunk H × σ → Prop where
  | reject {chunk : Chunk H} {state : σ} {rq : AppendRequest} {rest : List AppendRequest}
      (front : chunk.appendRequestQueue.items = rq :: rest) (behind : rq.offset < chunk.size) :
      DrainTurn store (chunk, state)
        (chunk.release rq.call (invalidOffset rq.offset rq.buf.length chunk.size), state)
  | write {chunk : Chunk H} {state : σ} {rq : AppendRequest} {rest : List AppendRequest}
      (front : chunk.appendRequestQueue.items = rq :: rest) (reached : rq.offset = chunk.size)
      (written : (store.append chunk.fh rq.offset rq.buf state).1 = Status.OK) :
      DrainTurn store (chunk, state)
        (({ chunk with size := chunk.size + rq.buf.length }).release rq.call Status.OK,
          (store.append chunk.fh rq.offset rq.buf state).2)
  | fail {chunk : Chunk H} {state : σ} {rq : AppendRequest} {rest : List AppendRequest}
      (front : chunk.appendRequestQueue.items = rq :: rest) (reached : rq.offset = chunk.size)
      (failed : (store.append chunk.fh rq.offset rq.buf state).1 ≠ Status.OK) :
      DrainTurn store (chunk, state)
        (chunk.release rq.call (store.append chunk.fh rq.offset rq.buf state).1,
          (store.append chunk.fh rq.offset rq.buf state).2)

theorem DrainTurn.waiting {store : Store σ H} {before after : Chunk H × σ}
    (turn : DrainTurn store before after) (waiting : before.1.Waiting) : after.1.Waiting := by
  cases turn with
  | reject => exact waiting.release _ _
  | write =>
      rename_i chunk state rq rest front reached written
      have grown : ({ chunk with size := chunk.size + rq.buf.length } : Chunk H).Waiting := waiting
      exact grown.release _ _
  | fail => exact waiting.release _ _

theorem DrainTurn.length {store : Store σ H} {before after : Chunk H × σ}
    (turn : DrainTurn store before after) (waiting : before.1.Waiting) :
    after.1.appendRequestQueue.items.length + 1 = before.1.appendRequestQueue.items.length := by
  cases turn with
  | reject front behind =>
      rw [waiting.release_items front, front]
      rfl
  | write front reached written =>
      rename_i chunk state rq rest
      have grown : ({ chunk with size := chunk.size + rq.buf.length } : Chunk H).Waiting := waiting
      rw [grown.release_items front, front]
      rfl
  | fail front reached failed =>
      rw [waiting.release_items front, front]
      rfl

/-- A turn of the loop ends it, with the queue drained, or is one of the turns above. -/
theorem drainStep_spec (store : Store σ H) {chunk : Chunk H} (state : σ)
    (waiting : chunk.Waiting) :
    (drainStep store chunk state = .done ∧ chunk.Drained) ∨
      ∃ next nextState, drainStep store chunk state = .next next nextState ∧
        DrainTurn store (chunk, state) (next, nextState) := by
  unfold drainStep
  cases front : chunk.appendRequestQueue.items with
  | nil =>
      left
      simp [Lib.IntrusiveSet.begin?, front, Drained]
  | cons rq rest =>
      have present := waiting rq (by simp [front])
      have begins : chunk.appendRequestQueue.begin? = some rq := by
        simp [Lib.IntrusiveSet.begin?, front]
      simp only [begins]
      by_cases behind : rq.offset < chunk.size
      · right
        rw [if_pos behind, settle_of_future (chunk.unlink rq.call) present]
        exact ⟨_, _, rfl, .reject front behind⟩
      · rw [if_neg behind]
        by_cases reached : rq.offset = chunk.size
        · right
          rw [if_pos reached]
          by_cases written : (store.append chunk.fh rq.offset rq.buf state).1 = Status.OK
          · simp only [written, if_true]
            rw [settle_of_future (unlink rq.call
              { chunk with size := chunk.size + rq.buf.length }) present]
            exact ⟨_, _, rfl, .write front reached written⟩
          · simp only [written, if_false]
            rw [settle_of_future (chunk.unlink rq.call) present]
            exact ⟨_, _, rfl, .fail front reached written⟩
        · left
          rw [if_neg reached]
          refine ⟨rfl, ?_⟩
          have sorted := chunk.appendRequestQueue.sorted
          rw [front] at sorted
          intro other otherMem
          rw [front] at otherMem
          rcases List.mem_cons.mp otherMem with rfl | later
          · omega
          · have after := (List.pairwise_cons.mp sorted).1 other later
            omega

/-- The drain loop does not abort and ends with the queue drained. -/
theorem drain_spec (store : Store σ H) {turns : ℕ} {chunk : Chunk H} (state : σ)
    (waiting : chunk.Waiting) (enough : chunk.appendRequestQueue.items.length ≤ turns) :
    ∃ after, drain store turns chunk state = some after ∧
      Relation.ReflTransGen (DrainTurn store) (chunk, state) after ∧
      after.1.Waiting ∧ after.1.Drained := by
  induction turns generalizing chunk state with
  | zero =>
      refine ⟨(chunk, state), rfl, .refl, waiting, ?_⟩
      intro rq member
      simp [List.length_eq_zero_iff.mp (Nat.le_zero.mp enough)] at member
  | succ turns ih =>
      simp only [drain]
      rcases drainStep_spec store state waiting with
        ⟨ended, drained⟩ | ⟨next, nextState, took, turn⟩
      · exact ⟨(chunk, state), by rw [ended], .refl, waiting, drained⟩
      · have shorter := turn.length waiting
        simp only at shorter
        rcases ih nextState (turn.waiting waiting) (by simp only; omega) with
          ⟨after, ran, turnsTaken, rest⟩
        exact ⟨after, by rw [took]; exact ran, .head turn turnsTaken, rest⟩

/-- How a call of `append` gets to the drain loop, or why it does not. -/
inductive Entered (store : Store σ H) (buf : Bytes) (offset : ℕ) (chunk : Chunk H) (state : σ) :
    AppendEntry σ H → Prop where
  | refused {status : Status} (notOk : status ≠ Status.OK)
      (reason : chunk.state = .kSealed ∨ offset < chunk.size) :
      Entered store buf offset chunk state (.returned (chunk.answer offset buf status) state)
  | queued (unsealed : chunk.state ≠ .kSealed) (beyond : chunk.size < offset) :
      Entered store buf offset chunk state (.returned (chunk.enqueue offset buf) state)
  | failed (unsealed : chunk.state ≠ .kSealed) (reached : offset = chunk.size)
      (notOk : (store.append chunk.fh offset buf state).1 ≠ Status.OK) :
      Entered store buf offset chunk state
        (.returned (chunk.answer offset buf (store.append chunk.fh offset buf state).1)
          (store.append chunk.fh offset buf state).2)
  | accepted (unsealed : chunk.state ≠ .kSealed) (reached : offset = chunk.size)
      (ok : (store.append chunk.fh offset buf state).1 = Status.OK) :
      Entered store buf offset chunk state
        (.draining { chunk with size := chunk.size + buf.length }
          (store.append chunk.fh offset buf state).2)

theorem beginAppend_spec (store : Store σ H) (buf : Bytes) (offset : ℕ) (chunk : Chunk H)
    (state : σ) :
    Entered store buf offset chunk state (chunk.beginAppend store buf offset state) := by
  unfold beginAppend
  by_cases isSealed : chunk.state = .kSealed
  · rw [if_pos isSealed]
    exact .refused (by simp [Status.fail]) (Or.inl isSealed)
  rw [if_neg isSealed]
  by_cases behind : offset < chunk.size
  · rw [if_pos behind]
    exact .refused (by simp [invalidOffset, Status.fail]) (Or.inr behind)
  rw [if_neg behind]
  by_cases reached : offset = chunk.size
  · rw [if_neg (not_not.mpr reached)]
    by_cases ok : (store.append chunk.fh offset buf state).1 = Status.OK
    · simp only [ok, if_true]
      exact .accepted isSealed reached ok
    · simp only [ok, if_false]
      exact .failed isSealed reached ok
  · rw [if_pos reached]
    exact .queued isSealed (by omega)

/-- The ways in which a call of `append` leaves its section. -/
inductive Appended (store : Store σ H) (buf : Bytes) (offset : ℕ) (chunk : Chunk H) (state : σ) :
    Chunk H × σ → Prop where
  | refused {status : Status} (notOk : status ≠ Status.OK)
      (reason : chunk.state = .kSealed ∨ offset < chunk.size) :
      Appended store buf offset chunk state (chunk.answer offset buf status, state)
  | queued (unsealed : chunk.state ≠ .kSealed) (beyond : chunk.size < offset) :
      Appended store buf offset chunk state (chunk.enqueue offset buf, state)
  | failed (unsealed : chunk.state ≠ .kSealed) (reached : offset = chunk.size)
      (notOk : (store.append chunk.fh offset buf state).1 ≠ Status.OK) :
      Appended store buf offset chunk state
        (chunk.answer offset buf (store.append chunk.fh offset buf state).1,
          (store.append chunk.fh offset buf state).2)
  | written (unsealed : chunk.state ≠ .kSealed) (reached : offset = chunk.size)
      (ok : (store.append chunk.fh offset buf state).1 = Status.OK) {after : Chunk H × σ}
      (drains : Relation.ReflTransGen (DrainTurn store)
        ({ chunk with size := chunk.size + buf.length },
          (store.append chunk.fh offset buf state).2) after)
      (drained : after.1.Drained) :
      Appended store buf offset chunk state (after.1.answer offset buf Status.OK, after.2)

theorem Waiting.answer {chunk : Chunk H} (waiting : chunk.Waiting) (offset : ℕ) (buf : Bytes)
    (status : Status) : (chunk.answer offset buf status).Waiting := by
  intro rq member
  have found := waiting rq member
  have inside := (List.getElem?_eq_some_iff.mp found).1
  simpa [Chunk.answer, List.getElem?_append_left inside] using found

theorem Waiting.enqueue {chunk : Chunk H} (waiting : chunk.Waiting) (offset : ℕ) (buf : Bytes) :
    (chunk.enqueue offset buf).Waiting := by
  intro rq member
  rcases Lib.IntrusiveSet.mem_insertList member with rfl | old
  · simp [Chunk.enqueue]
  · have found := waiting rq old
    have inside := (List.getElem?_eq_some_iff.mp found).1
    simpa [Chunk.enqueue, List.getElem?_append_left inside] using found

theorem waiting_of_drainTurns {store : Store σ H} {before after : Chunk H × σ}
    (turns : Relation.ReflTransGen (DrainTurn store) before after)
    (waiting : before.1.Waiting) : after.1.Waiting := by
  induction turns with
  | refl => exact waiting
  | tail _ turn ih => exact turn.waiting ih

/-- `append` does not abort, and it ends in one of the ways of `Appended`. -/
theorem append_spec (store : Store σ H) (buf : Bytes) (offset : ℕ) {chunk : Chunk H} (state : σ)
    (waiting : chunk.Waiting) :
    ∃ after, chunk.append store buf offset state = some after ∧
      Appended store buf offset chunk state after := by
  unfold append
  have entered := chunk.beginAppend_spec store buf offset state
  revert entered
  generalize chunk.beginAppend store buf offset state = entry
  intro entered
  cases entered with
  | refused notOk reason => exact ⟨_, rfl, .refused notOk reason⟩
  | queued unsealed beyond => exact ⟨_, rfl, .queued unsealed beyond⟩
  | failed unsealed reached notOk => exact ⟨_, rfl, .failed unsealed reached notOk⟩
  | accepted unsealed reached ok =>
      have grown : ({ chunk with size := chunk.size + buf.length } : Chunk H).Waiting := waiting
      rcases drain_spec store (store.append chunk.fh offset buf state).2 grown le_rfl with
        ⟨after, ran, turns, -, drained⟩
      refine ⟨_, ?_, .written unsealed reached ok turns drained⟩
      simp only [ran]
      rfl

theorem Appended.waiting {store : Store σ H} {buf : Bytes} {offset : ℕ} {chunk : Chunk H}
    {state : σ} {after : Chunk H × σ} (appended : Appended store buf offset chunk state after)
    (waiting : chunk.Waiting) : after.1.Waiting := by
  cases appended with
  | refused => exact waiting.answer _ _ _
  | queued => exact waiting.enqueue _ _
  | failed => exact waiting.answer _ _ _
  | written unsealed reached ok drains drained =>
      have grown : ({ chunk with size := chunk.size + buf.length } : Chunk H).Waiting := waiting
      exact (waiting_of_drainTurns drains grown).answer _ _ _

theorem DrainTurn.same_file {store : Store σ H} {before after : Chunk H × σ}
    (turn : DrainTurn store before after) :
    after.1.fh = before.1.fh ∧ after.1.uuid = before.1.uuid := by
  cases turn <;> exact ⟨rfl, rfl⟩

theorem same_file_of_drainTurns {store : Store σ H} {before after : Chunk H × σ}
    (turns : Relation.ReflTransGen (DrainTurn store) before after) :
    after.1.fh = before.1.fh ∧ after.1.uuid = before.1.uuid := by
  induction turns with
  | refl => exact ⟨rfl, rfl⟩
  | tail _ turn ih => exact ⟨turn.same_file.1.trans ih.1, turn.same_file.2.trans ih.2⟩

theorem Appended.same_file {store : Store σ H} {buf : Bytes} {offset : ℕ} {chunk : Chunk H}
    {state : σ} {after : Chunk H × σ} (appended : Appended store buf offset chunk state after) :
    after.1.fh = chunk.fh ∧ after.1.uuid = chunk.uuid := by
  cases appended with
  | refused => exact ⟨rfl, rfl⟩
  | queued => exact ⟨rfl, rfl⟩
  | failed => exact ⟨rfl, rfl⟩
  | written unsealed reached ok drains drained => exact same_file_of_drainTurns drains

theorem timeout_spec (call : ℕ) (chunk : Chunk H) :
    chunk.timeout call = some chunk ∨
      ∃ offset buf, chunk.calls[call]? = some ⟨offset, buf, .future⟩ ∧
        chunk.timeout call =
          some (chunk.release call (invalidOffset offset buf.length chunk.size)) := by
  unfold timeout
  cases present : chunk.calls[call]? with
  | none => exact Or.inl rfl
  | some entry =>
      rcases entry with ⟨offset, buf, promise⟩
      cases promise with
      | future => exact Or.inr ⟨offset, buf, rfl, rfl⟩
      | result value => exact Or.inl rfl
      | exception what => exact Or.inl rfl

/-- The outcomes of `query_and_seal`, by the calls that it makes of the store. -/
theorem queryAndSeal_cases (store : Store σ H) (chunk : Chunk H) (state : σ) :
    (∃ failure, (store.sealFile chunk.fh state).1 = .error failure ∧
      chunk.queryAndSeal store .valid state =
        (.error failure, chunk, (store.sealFile chunk.fh state).2)) ∨
    (store.sealFile chunk.fh state).1 = Status.OK ∧
      ((∃ failure, (store.size chunk.fh (store.sealFile chunk.fh state).2).1 = .error failure ∧
        chunk.queryAndSeal store .valid state =
          (.error failure, chunk, (store.size chunk.fh (store.sealFile chunk.fh state).2).2)) ∨
      ∃ length, (store.size chunk.fh (store.sealFile chunk.fh state).2).1 = .ok length ∧
        chunk.queryAndSeal store .valid state =
          (.ok length, { chunk with state := .kSealed },
            (store.size chunk.fh (store.sealFile chunk.fh state).2).2)) := by
  unfold queryAndSeal
  rw [if_neg (by decide)]
  cases called : store.sealFile chunk.fh state with
  | mk status sealedState =>
      cases status with
      | error failure => exact .inl ⟨failure, rfl, rfl⟩
      | ok =>
          refine .inr ⟨rfl, ?_⟩
          simp only
          cases sized : store.size chunk.fh sealedState with
          | mk result sizedState =>
              cases result with
              | error failure => exact .inl ⟨failure, rfl, rfl⟩
              | ok length => exact .inr ⟨length, rfl, rfl⟩

/-- The ways in which `query_and_seal` leaves its section. -/
inductive Sealed (store : Store σ H) (chunk : Chunk H) (state : σ) :
    Except Failure ℕ × Chunk H × σ → Prop where
  | null : Sealed store chunk state (.error ⟨.EINVAL, "length is nullptr"⟩, chunk, state)
  | sealFailed {failure : Failure} :
      Sealed store chunk state (.error failure, chunk, (store.sealFile chunk.fh state).2)
  | sizeFailed {failure : Failure} :
      Sealed store chunk state
        (.error failure, chunk, (store.size chunk.fh (store.sealFile chunk.fh state).2).2)
  | done {length : ℕ}
      (sized : (store.size chunk.fh (store.sealFile chunk.fh state).2).1 = .ok length) :
      Sealed store chunk state
        (.ok length, { chunk with state := .kSealed },
          (store.size chunk.fh (store.sealFile chunk.fh state).2).2)

theorem queryAndSeal_spec (store : Store σ H) (length : OutPointer) (chunk : Chunk H) (state : σ) :
    Sealed store chunk state (chunk.queryAndSeal store length state) := by
  cases length with
  | null => exact .null
  | valid =>
      rcases queryAndSeal_cases store chunk state with
        ⟨failure, -, called⟩ | ⟨-, ⟨failure, -, called⟩ | ⟨size, sized, called⟩⟩
      · rw [called]
        exact .sealFailed
      · rw [called]
        exact .sizeFailed
      · rw [called]
        exact .done sized

theorem Sealed.same_file {store : Store σ H} {chunk : Chunk H} {state : σ}
    {result : Except Failure ℕ × Chunk H × σ} (called : Sealed store chunk state result) :
    result.2.1.fh = chunk.fh ∧ result.2.1.uuid = chunk.uuid := by
  cases called <;> exact ⟨rfl, rfl⟩

/-- Calls are never forgotten, and an outcome that is set stays as it is. -/
def Evolves (before after : Chunk H) : Prop :=
  ∀ (call : ℕ) (entry : AppendCall), before.calls[call]? = some entry →
    ∃ promise, after.calls[call]? = some { entry with promise := promise } ∧
      (entry.promise ≠ .future → promise = entry.promise)

theorem Evolves.refl (chunk : Chunk H) : chunk.Evolves chunk := by
  intro call entry found
  exact ⟨entry.promise, found, fun _ => rfl⟩

theorem Evolves.trans {first second third : Chunk H} (left : first.Evolves second)
    (right : second.Evolves third) : first.Evolves third := by
  intro call entry found
  rcases left call entry found with ⟨promise, foundLater, stays⟩
  rcases right call _ foundLater with ⟨promise', foundLast, staysLater⟩
  refine ⟨promise', foundLast, ?_⟩
  intro settled
  have same := stays settled
  rw [same] at staysLater
  exact staysLater settled

theorem evolves_answer (chunk : Chunk H) (offset : ℕ) (buf : Bytes) (status : Status) :
    chunk.Evolves (chunk.answer offset buf status) := by
  intro call entry found
  have inside := (List.getElem?_eq_some_iff.mp found).1
  exact ⟨entry.promise, by simpa [answer, List.getElem?_append_left inside] using found,
    fun _ => rfl⟩

theorem evolves_enqueue (chunk : Chunk H) (offset : ℕ) (buf : Bytes) :
    chunk.Evolves (chunk.enqueue offset buf) := by
  intro call entry found
  have inside := (List.getElem?_eq_some_iff.mp found).1
  exact ⟨entry.promise, by simpa [enqueue, List.getElem?_append_left inside] using found,
    fun _ => rfl⟩

theorem evolves_release {chunk : Chunk H} {call offset : ℕ} {buf : Bytes}
    (pending : chunk.calls[call]? = some ⟨offset, buf, .future⟩) (status : Status) :
    chunk.Evolves (chunk.release call status) := by
  intro other entry found
  have found' : (chunk.unlink call).calls[other]? = some entry := found
  rw [release, getElem?_setPromise, found']
  by_cases same : call = other
  · subst same
    rw [pending] at found
    simp only [Option.some.injEq] at found
    subst found
    exact ⟨.result status, by simp, fun settled => absurd rfl settled⟩
  · exact ⟨entry.promise, by simp [same], fun _ => rfl⟩

theorem DrainTurn.evolves {store : Store σ H} {before after : Chunk H × σ}
    (turn : DrainTurn store before after) (waiting : before.1.Waiting) :
    before.1.Evolves after.1 := by
  cases turn with
  | reject front behind =>
      exact evolves_release (waiting _ (by rw [front]; exact List.mem_cons_self)) _
  | write front reached written =>
      rename_i chunk state rq rest
      have pending : ({ chunk with size := chunk.size + rq.buf.length } : Chunk H).calls[rq.call]? =
          some ⟨rq.offset, rq.buf, .future⟩ :=
        waiting _ (by rw [front]; exact List.mem_cons_self)
      exact evolves_release pending _
  | fail front reached failed =>
      exact evolves_release (waiting _ (by rw [front]; exact List.mem_cons_self)) _

theorem Appended.evolves {store : Store σ H} {buf : Bytes} {offset : ℕ} {chunk : Chunk H}
    {state : σ} {after : Chunk H × σ} (appended : Appended store buf offset chunk state after)
    (waiting : chunk.Waiting) : chunk.Evolves after.1 := by
  cases appended with
  | refused => exact evolves_answer _ _ _ _
  | queued => exact evolves_enqueue _ _ _
  | failed => exact evolves_answer _ _ _ _
  | @written unsealed reached ok after drains drained =>
      refine Evolves.trans ?_ (evolves_answer after.1 offset buf Status.OK)
      have startWaiting : ({ chunk with size := chunk.size + buf.length } : Chunk H).Waiting :=
        waiting
      clear drained ok
      induction drains with
      | refl => exact Evolves.refl chunk
      | tail earlier turn ih =>
          exact ih.trans (turn.evolves (waiting_of_drainTurns earlier startWaiting))

end Chunk

namespace World

variable {σ H : Type}

/-- Every chunk object ties its queue to its promises. -/
def Waiting (world : World σ H) : Prop :=
  ∀ (pointer : ℕ) (chunk : Chunk H), world.chunks[pointer]? = some chunk → chunk.Waiting

/-- What a step can do to the world. -/
inductive Stepped (store : Store σ H) (text : UUID.Text) (world : World σ H) :
    Event → World σ H → Prop where
  | idle {event : Event} : Stepped store text world event world
  | notCreated {chunk : OutPointer} {uuid : UUID} :
      Stepped store text world (.createChunk chunk uuid)
        { world with
          store := (store.openFile (text.str uuid) .createExclusive world.store).2 }
  | created {chunk : OutPointer} {uuid : UUID} {fh : H} {state : σ}
      (opens : store.openFile (text.str uuid) .createExclusive world.store = (.ok fh, state)) :
      Stepped store text world (.createChunk chunk uuid)
        (world.adopt (Chunk.opened uuid fh 0) state)
  | removed {uuid : UUID} {pointer : ℕ} (present : world.bank[uuid]? = some pointer) :
      Stepped store text world (.removeChunk uuid)
        { world with
          store := (store.remove (text.str uuid) world.store).2
          bank := world.bank.erase uuid }
  | appended {pointer : ℕ} {buf : Bytes} {offset : ℕ} {chunk : Chunk H} {after : Chunk H × σ}
      (present : world.chunks[pointer]? = some chunk)
      (appended : Chunk.Appended store buf offset chunk world.store after) :
      Stepped store text world (.append pointer buf offset) (world.put pointer after.1 after.2)
  | timedOut {pointer call : ℕ} {chunk : Chunk H} {offset : ℕ} {buf : Bytes}
      (present : world.chunks[pointer]? = some chunk)
      (pending : chunk.calls[call]? = some ⟨offset, buf, .future⟩) :
      Stepped store text world (.timeout pointer call)
        (world.put pointer
          (chunk.release call (Chunk.invalidOffset offset buf.length chunk.size)) world.store)
  | read {pointer : ℕ} {offset size : UInt64} {buf : Bytes} {chunk : Chunk H}
      (present : world.chunks[pointer]? = some chunk) :
      Stepped store text world (.read pointer offset size (some buf))
        { world with
          store := (store.openAndRead (text.str chunk.uuid) offset.toNat size.toNat buf
            world.store).2 }
  | queriedAndSealed {pointer : ℕ} {length : OutPointer} {chunk : Chunk H}
      {result : Except Failure ℕ × Chunk H × σ} (present : world.chunks[pointer]? = some chunk)
      (called : Chunk.Sealed store chunk world.store result) :
      Stepped store text world (.queryAndSeal pointer length)
        (world.put pointer result.2.1 result.2.2)

theorem put_self {world : World σ H} {pointer : ℕ} {chunk : Chunk H}
    (present : world.chunks[pointer]? = some chunk) (state : σ) :
    world.put pointer chunk state = { world with store := state } := by
  rcases List.getElem?_eq_some_iff.mp present with ⟨inside, same⟩
  simp [put, ← same]

@[simp]
theorem put_put (world : World σ H) (pointer : ℕ) (first second : Chunk H) (before after : σ) :
    (world.put pointer first before).put pointer second after = world.put pointer second after := by
  simp [put]

theorem createChunk_stepped (store : Store σ H) (text : UUID.Text) (chunk : OutPointer)
    (uuid : UUID) (world : World σ H) :
    Stepped store text world (.createChunk chunk uuid)
      (world.createChunk store text chunk uuid).2 := by
  unfold createChunk
  by_cases null : chunk = .null
  · rw [if_pos null]
    exact .idle
  rw [if_neg null]
  unfold Chunk.create
  cases opens : store.openFile (text.str uuid) .createExclusive world.store with
  | mk result state =>
      cases result with
      | error failure =>
          have state_eq : state =
              (store.openFile (text.str uuid) .createExclusive world.store).2 := by rw [opens]
          simp only [state_eq]
          exact .notCreated
      | ok fh => exact .created opens

/-- No step from a world whose queues are tied to their promises aborts. -/
theorem step_spec (store : Store σ H) (text : UUID.Text) {world : World σ H}
    (waiting : world.Waiting) (event : Event) :
    ∃ next, world.step store text event = some next ∧ Stepped store text world event next := by
  cases event with
  | createChunk chunk uuid => exact ⟨_, rfl, createChunk_stepped store text chunk uuid world⟩
  | removeChunk uuid =>
      refine ⟨_, rfl, ?_⟩
      unfold removeChunk
      cases present : world.bank[uuid]? with
      | none => exact .idle
      | some pointer => exact .removed present
  | append pointer buf offset =>
      simp only [step]
      cases present : world.chunks[pointer]? with
      | none => exact ⟨world, rfl, .idle⟩
      | some chunk =>
          rcases chunk.append_spec store buf offset world.store (waiting _ _ present) with
            ⟨after, ran, appended⟩
          exact ⟨_, by simp [ran], .appended present appended⟩
  | timeout pointer call =>
      simp only [step]
      cases present : world.chunks[pointer]? with
      | none => exact ⟨world, rfl, .idle⟩
      | some chunk =>
          rcases chunk.timeout_spec call with settled | ⟨offset, buf, pending, fired⟩
          · exact ⟨world, by simp [settled, put_self present], .idle⟩
          · exact ⟨_, by simp [fired], .timedOut present pending⟩
  | read pointer offset size buf =>
      simp only [step]
      cases present : world.chunks[pointer]? with
      | none => exact ⟨world, rfl, .idle⟩
      | some chunk =>
          refine ⟨_, rfl, ?_⟩
          unfold Chunk.read
          cases buf with
          | none => exact .idle
          | some buf =>
              simp only
              split
              · exact .idle
              · exact .read present
  | queryAndSeal pointer length =>
      simp only [step]
      cases present : world.chunks[pointer]? with
      | none => exact ⟨world, rfl, .idle⟩
      | some chunk =>
          exact ⟨_, rfl, .queriedAndSealed present
            (chunk.queryAndSeal_spec store length world.store)⟩

theorem stepped_of_step {store : Store σ H} {text : UUID.Text} {world next : World σ H}
    {event : Event} (waiting : world.Waiting)
    (took : world.step store text event = some next) :
    Stepped store text world event next := by
  rcases step_spec store text waiting event with ⟨next', took', stepped⟩
  rw [took, Option.some.injEq] at took'
  exact took' ▸ stepped

theorem getElem?_put {world : World σ H} {pointer other : ℕ} {chunk old : Chunk H} {state : σ}
    (present : world.chunks[pointer]? = some old) :
    (world.put pointer chunk state).chunks[other]? =
      if pointer = other then some chunk else world.chunks[other]? := by
  have inside := (List.getElem?_eq_some_iff.mp present).1
  simp [put, List.getElem?_set, inside]

/-- What holds of the new chunk and of all others holds of every chunk after a `put`. -/
theorem forall_put {P : ℕ → Chunk H → Prop} {world : World σ H} {pointer : ℕ}
    {old chunk : Chunk H} {state : σ} (present : world.chunks[pointer]? = some old)
    (changed : P pointer chunk)
    (others : ∀ other found, pointer ≠ other → world.chunks[other]? = some found →
      P other found) :
    ∀ other found, (world.put pointer chunk state).chunks[other]? = some found →
      P other found := by
  intro other found foundAt
  rw [getElem?_put present] at foundAt
  split at foundAt
  · rename_i same
    simp only [Option.some.injEq] at foundAt
    exact same ▸ foundAt ▸ changed
  · rename_i different
    exact others other found different foundAt

theorem getElem?_put_self {world : World σ H} {pointer : ℕ} {old : Chunk H} (chunk : Chunk H)
    (state : σ) (present : world.chunks[pointer]? = some old) :
    (world.put pointer chunk state).chunks[pointer]? = some chunk := by
  simp [getElem?_put present]

theorem getElem?_adopt {world : World σ H} {pointer : ℕ} {chunk found : Chunk H} {state : σ} :
    (world.adopt chunk state).chunks[pointer]? = some found ↔
      world.chunks[pointer]? = some found ∨ pointer = world.chunks.length ∧ chunk = found := by
  simp only [adopt]
  rcases lt_trichotomy pointer world.chunks.length with before | same | after
  · rw [List.getElem?_append_left before]
    simp [before.ne]
  · subst same
    simp
  · have missing : world.chunks[pointer]? = none := List.getElem?_eq_none after.le
    have missing' : (world.chunks ++ [chunk])[pointer]? = none := by
      apply List.getElem?_eq_none
      simp only [List.length_append, List.length_singleton]
      omega
    simp [missing, missing', after.ne']

theorem Stepped.waiting {store : Store σ H} {text : UUID.Text} {world next : World σ H}
    {event : Event} (stepped : Stepped store text world event next) (waiting : world.Waiting) :
    next.Waiting := by
  have put_waiting : ∀ {pointer : ℕ} {old chunk : Chunk H} {state : σ},
      world.chunks[pointer]? = some old → chunk.Waiting →
        (world.put pointer chunk state).Waiting := by
    intro pointer old chunk state present holds
    exact forall_put present holds (fun other found _ => waiting other found)
  cases stepped with
  | idle => exact waiting
  | notCreated => exact waiting
  | created opens =>
      intro pointer chunk found
      rcases getElem?_adopt.mp found with old | ⟨-, rfl⟩
      · exact waiting _ _ old
      · intro rq member
        simp [Chunk.opened] at member
  | removed => exact waiting
  | appended present appended => exact put_waiting present (appended.waiting (waiting _ _ present))
  | timedOut present pending => exact put_waiting present ((waiting _ _ present).release _ _)
  | read present => exact waiting
  | queriedAndSealed present called =>
      have old := waiting _ _ present
      apply put_waiting present
      cases called with
      | null => exact old
      | sealFailed => exact old
      | sizeFailed => exact old
      | done sized => exact old

/-- Chunk objects are never forgotten, and each of them evolves. -/
def Evolves (before after : World σ H) : Prop :=
  ∀ (pointer : ℕ) (chunk : Chunk H), before.chunks[pointer]? = some chunk →
    ∃ later, after.chunks[pointer]? = some later ∧ chunk.Evolves later

theorem Evolves.refl (world : World σ H) : world.Evolves world :=
  fun _ chunk found => ⟨chunk, found, .refl chunk⟩

theorem Evolves.trans {first second third : World σ H} (left : first.Evolves second)
    (right : second.Evolves third) : first.Evolves third := by
  intro pointer chunk found
  rcases left pointer chunk found with ⟨middle, middleFound, evolved⟩
  rcases right pointer middle middleFound with ⟨last, lastFound, evolvedLater⟩
  exact ⟨last, lastFound, evolved.trans evolvedLater⟩

theorem evolves_put {world : World σ H} {pointer : ℕ} {old chunk : Chunk H} {state : σ}
    (present : world.chunks[pointer]? = some old) (evolves : old.Evolves chunk) :
    world.Evolves (world.put pointer chunk state) := by
  intro other found foundAt
  rw [getElem?_put present]
  split
  · rename_i same
    subst same
    rw [present] at foundAt
    simp only [Option.some.injEq] at foundAt
    exact ⟨chunk, rfl, foundAt ▸ evolves⟩
  · exact ⟨found, foundAt, .refl found⟩

theorem Stepped.evolves {store : Store σ H} {text : UUID.Text} {world next : World σ H}
    {event : Event} (stepped : Stepped store text world event next) (waiting : world.Waiting) :
    world.Evolves next := by
  cases stepped with
  | idle => exact .refl world
  | notCreated => exact .refl world
  | created opens =>
      intro pointer chunk found
      exact ⟨chunk, getElem?_adopt.mpr (Or.inl found), .refl chunk⟩
  | removed present => exact .refl world
  | appended present appended =>
      exact evolves_put present (appended.evolves (waiting _ _ present))
  | timedOut present pending => exact evolves_put present (Chunk.evolves_release pending _)
  | read present => exact .refl world
  | queriedAndSealed present called =>
      apply evolves_put present
      cases called with
      | null => exact .refl _
      | sealFailed => exact .refl _
      | sizeFailed => exact .refl _
      | done sized => exact Chunk.Evolves.refl _

theorem initial_waiting (state : σ) : (initial state : World σ H).Waiting := by
  intro pointer chunk found
  simp [initial] at found

/-- No run of the chunk server aborts. -/
theorem run_total (store : Store σ H) (text : UUID.Text) {world : World σ H}
    (waiting : world.Waiting) (events : List Event) :
    ∃ final, world.run store text events = some final ∧ final.Waiting := by
  have allowed : Lib.Guarded (step store text) (fun _ _ => True) world events :=
    Lib.guarded_of_forall_mem (fun _ _ => trivial)
  refine Lib.exec_total Waiting ?_ waiting allowed
  intro before event holds _
  rcases step_spec store text holds event with ⟨next, took, stepped⟩
  exact ⟨next, took, stepped.waiting holds⟩

/-- Over any run, no call is forgotten and no outcome changes once it is set. -/
theorem run_evolves {store : Store σ H} {text : UUID.Text} {world final : World σ H}
    {events : List Event} (waiting : world.Waiting)
    (ran : world.run store text events = some final) : world.Evolves final := by
  have both : final.Waiting ∧ world.Evolves final := by
    refine Lib.exec_invariant_of_progress (fun later => later.Waiting ∧ world.Evolves later) ?_
      ⟨waiting, .refl world⟩ ran
    rintro before event ⟨holds, evolved⟩
    rcases step_spec store text holds event with ⟨next, took, stepped⟩
    exact ⟨next, took, stepped.waiting holds, evolved.trans (stepped.evolves holds)⟩
  exact both.2

/-- The section is one of a chunk, not of the bank. -/
def Event.InChunk : Event → Prop
  | .createChunk _ _ | .removeChunk _ => False
  | .append _ _ _ | .timeout _ _ | .read _ _ _ _ | .queryAndSeal _ _ => True

/-- A section of a chunk leaves the map of the bank, and adds no chunk. -/
theorem same_of_step {store : Store σ H} {text : UUID.Text} {world next : World σ H}
    {event : Event} (waiting : world.Waiting) (took : world.step store text event = some next)
    (inChunk : event.InChunk) :
    next.bank = world.bank ∧ next.chunks.length = world.chunks.length := by
  cases stepped_of_step waiting took with
  | idle => exact ⟨rfl, rfl⟩
  | notCreated => exact inChunk.elim
  | created => exact inChunk.elim
  | removed => exact inChunk.elim
  | appended => exact ⟨rfl, List.length_set⟩
  | timedOut => exact ⟨rfl, List.length_set⟩
  | read => exact ⟨rfl, rfl⟩
  | queriedAndSealed => exact ⟨rfl, List.length_set⟩

end World

end Pain.Manusya
