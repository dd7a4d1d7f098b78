import Pain.Manusya.Steps

/-!
# A chunk on two stores

A chunk looks at its store only through the statuses that the store returns. If
the handles of one file on two stores are appended to alike, then a chunk and
its twin on the other store, which differ in the handle alone, make the same
steps: they queue, drain, time out and answer alike, and their files grow by the
same bytes.
-/

namespace Pain.Manusya

namespace Chunk

variable {σ τ H K : Type}

/-- The same chunk on another store. -/
def rehandle (fh : K) (chunk : Chunk H) : Chunk K where
  uuid := chunk.uuid
  size := chunk.size
  state := chunk.state
  fh := fh
  appendRequestQueue := chunk.appendRequestQueue
  calls := chunk.calls

theorem settle_rehandle (fh : K) (chunk : Chunk H) (call : ℕ) (status : Status) :
    (chunk.rehandle fh).settle call status =
      (chunk.settle call status).map (fun chunk => chunk.rehandle fh) := by
  simp only [settle, rehandle]
  cases chunk.calls[call]? with
  | none => rfl
  | some entry =>
      simp only [Option.map_map]
      rfl

theorem timeout_rehandle (fh : K) (chunk : Chunk H) (call : ℕ) :
    (chunk.rehandle fh).timeout call =
      (chunk.timeout call).map (fun chunk => chunk.rehandle fh) := by
  simp only [timeout, rehandle]
  cases chunk.calls[call]? with
  | none => rfl
  | some entry =>
      by_cases available : entry.promise.available
      · simp [available]
      · simp only [available, Bool.false_eq_true, if_false, Option.map_map]
        rfl

theorem settle_eq_some {chunk after : Chunk H} {call : ℕ} {status : Status}
    (settled : chunk.settle call status = some after) :
    after.fh = chunk.fh ∧ after.uuid = chunk.uuid ∧ after.size = chunk.size := by
  simp only [settle] at settled
  cases entry : chunk.calls[call]? with
  | none => simp [entry] at settled
  | some found =>
      simp only [entry, Option.map_eq_some_iff] at settled
      rcases settled with ⟨promise, -, rfl⟩
      exact ⟨rfl, rfl, rfl⟩

/-- Two stores with a file that holds the given bytes in both, and the handles of a chunk for it. -/
structure Pairing (store : Store σ H) (other : Store τ K) where
  fh : H
  twin : K
  related : Bytes → σ → τ → Prop
  append : ∀ {data state otherState} (offset : ℕ) (buf : Bytes), related data state otherState →
    ∃ next otherNext, store.append fh offset buf state = (Status.OK, next) ∧
      other.append twin offset buf otherState = (Status.OK, otherNext) ∧
        related (data ++ buf) next otherNext

variable {store : Store σ H} {other : Store τ K}

/-- The chunk has the handle of the pairing, and its size is that of the file. -/
def InStep (pairing : Pairing store other) (uuid : UUID) (chunk : Chunk H) (state : σ)
    (otherState : τ) : Prop :=
  chunk.fh = pairing.fh ∧ chunk.uuid = uuid ∧
    ∃ data, chunk.size = data.length ∧ pairing.related data state otherState

theorem InStep.settle {pairing : Pairing store other} {uuid : UUID} {chunk after : Chunk H}
    {state : σ} {otherState : τ} (inStep : InStep pairing uuid chunk state otherState) {call : ℕ}
    {status : Status} (settled : (chunk.unlink call).settle call status = some after) :
    InStep pairing uuid after state otherState := by
  rcases settle_eq_some settled with ⟨sameHandle, sameUuid, sameSize⟩
  rcases inStep with ⟨handle, identifier, data, sized, related⟩
  exact ⟨sameHandle.trans handle, sameUuid.trans identifier, data, sameSize.trans sized, related⟩

theorem InStep.append {pairing : Pairing store other} {uuid : UUID} {chunk : Chunk H} {state : σ}
    {otherState : τ} (inStep : InStep pairing uuid chunk state otherState) (offset : ℕ)
    (buf : Bytes) :
    ∃ next otherNext, store.append chunk.fh offset buf state = (Status.OK, next) ∧
      other.append pairing.twin offset buf otherState = (Status.OK, otherNext) ∧
        InStep pairing uuid { chunk with size := chunk.size + buf.length } next otherNext := by
  rcases inStep with ⟨handle, identifier, data, sized, related⟩
  rcases pairing.append offset buf related with ⟨next, otherNext, appended, otherAppended, later⟩
  exact ⟨next, otherNext, handle ▸ appended, otherAppended, handle, identifier, data ++ buf,
    by simp [sized], later⟩

theorem InStep.settle_alike {pairing : Pairing store other} {uuid : UUID} {chunk : Chunk H}
    {state : σ} {otherState : τ} (inStep : InStep pairing uuid chunk state otherState) (call : ℕ)
    (status : Status) :
    ((chunk.unlink call).settle call status = none ∧
        ((chunk.rehandle pairing.twin).unlink call).settle call status = none) ∨
      ∃ after, (chunk.unlink call).settle call status = some after ∧
        ((chunk.rehandle pairing.twin).unlink call).settle call status =
          some (after.rehandle pairing.twin) ∧
        InStep pairing uuid after state otherState := by
  have commutes : (chunk.rehandle pairing.twin).unlink call =
      (chunk.unlink call).rehandle pairing.twin := rfl
  simp only [commutes, settle_rehandle]
  cases settled : (chunk.unlink call).settle call status with
  | none => exact .inl ⟨rfl, rfl⟩
  | some after => exact .inr ⟨after, rfl, rfl, inStep.settle settled⟩

theorem drainStep_alike (pairing : Pairing store other) {uuid : UUID} {chunk : Chunk H} {state : σ}
    {otherState : τ} (inStep : InStep pairing uuid chunk state otherState) :
    (drainStep store chunk state = .done ∧
        drainStep other (chunk.rehandle pairing.twin) otherState = .done) ∨
      (drainStep store chunk state = .aborted ∧
        drainStep other (chunk.rehandle pairing.twin) otherState = .aborted) ∨
      ∃ after next otherNext, drainStep store chunk state = .next after next ∧
        drainStep other (chunk.rehandle pairing.twin) otherState =
          .next (after.rehandle pairing.twin) otherNext ∧
        InStep pairing uuid after next otherNext := by
  have sameQueue : (chunk.rehandle pairing.twin).appendRequestQueue = chunk.appendRequestQueue :=
    rfl
  have sameSize : (chunk.rehandle pairing.twin).size = chunk.size := rfl
  have twinHandle : (chunk.rehandle pairing.twin).fh = pairing.twin := rfl
  simp only [drainStep, sameQueue, sameSize, twinHandle]
  cases chunk.appendRequestQueue.begin? with
  | none => simp
  | some rq =>
      simp only
      by_cases behind : rq.offset < chunk.size
      · simp only [behind, if_true]
        rcases inStep.settle_alike rq.call (invalidOffset rq.offset rq.buf.length chunk.size) with
          ⟨aborted, otherAborted⟩ | ⟨after, settled, otherSettled, later⟩
        · simp [aborted, otherAborted]
        · simp only [settled, otherSettled]
          exact .inr (.inr ⟨after, state, otherState, rfl, rfl, later⟩)
      · simp only [behind, if_false]
        by_cases reached : rq.offset = chunk.size
        · rcases inStep.append rq.offset rq.buf with
            ⟨next, otherNext, appended, otherAppended, grown⟩
          simp only [reached, if_true] at appended otherAppended ⊢
          simp only [appended, otherAppended, if_true]
          rcases grown.settle_alike rq.call Status.OK with
            ⟨aborted, otherAborted⟩ | ⟨after, settled, otherSettled, later⟩
          · simp only [rehandle] at otherAborted ⊢
            simp [aborted, otherAborted]
          · simp only [rehandle] at otherSettled ⊢
            simp only [settled, otherSettled]
            exact .inr (.inr ⟨after, next, otherNext, rfl, rfl, later⟩)
        · simp [reached]

theorem drain_alike (pairing : Pairing store other) (turns : ℕ) {uuid : UUID} {chunk : Chunk H}
    {state : σ} {otherState : τ} (inStep : InStep pairing uuid chunk state otherState) :
    (drain store turns chunk state = none ∧
        drain other turns (chunk.rehandle pairing.twin) otherState = none) ∨
      ∃ after next otherNext, drain store turns chunk state = some (after, next) ∧
        drain other turns (chunk.rehandle pairing.twin) otherState =
          some (after.rehandle pairing.twin, otherNext) ∧
        InStep pairing uuid after next otherNext := by
  induction turns generalizing chunk state otherState with
  | zero => exact .inr ⟨chunk, state, otherState, rfl, rfl, inStep⟩
  | succ turns ih =>
      simp only [drain]
      rcases drainStep_alike pairing inStep with
        ⟨ended, otherEnded⟩ | ⟨aborted, otherAborted⟩ |
          ⟨after, next, otherNext, took, otherTook, later⟩
      · simp only [ended, otherEnded]
        exact .inr ⟨chunk, state, otherState, rfl, rfl, inStep⟩
      · simp [aborted, otherAborted]
      · simp only [took, otherTook]
        exact ih later

/-- `Chunk::append` on both stores. -/
theorem append_alike (pairing : Pairing store other) (buf : Bytes) (offset : ℕ) {uuid : UUID}
    {chunk : Chunk H} {state : σ} {otherState : τ}
    (inStep : InStep pairing uuid chunk state otherState) :
    (chunk.append store buf offset state = none ∧
        (chunk.rehandle pairing.twin).append other buf offset otherState = none) ∨
      ∃ after next otherNext, chunk.append store buf offset state = some (after, next) ∧
        (chunk.rehandle pairing.twin).append other buf offset otherState =
          some (after.rehandle pairing.twin, otherNext) ∧
        InStep pairing uuid after next otherNext := by
  have sameState : (chunk.rehandle pairing.twin).state = chunk.state := rfl
  have sameSize : (chunk.rehandle pairing.twin).size = chunk.size := rfl
  have twinHandle : (chunk.rehandle pairing.twin).fh = pairing.twin := rfl
  simp only [append, beginAppend, sameState, sameSize, twinHandle]
  by_cases finished : chunk.state = .kSealed
  · simp only [finished, if_true]
    exact .inr ⟨_, state, otherState, rfl, rfl, inStep⟩
  · simp only [finished, if_false]
    by_cases behind : offset < chunk.size
    · simp only [behind, if_true]
      exact .inr ⟨_, state, otherState, rfl, rfl, inStep⟩
    · simp only [behind, if_false]
      by_cases reached : offset = chunk.size
      · rcases inStep.append offset buf with ⟨next, otherNext, appended, otherAppended, grown⟩
        simp only [reached, ne_eq, not_true_eq_false, if_false] at appended otherAppended ⊢
        simp only [appended, otherAppended, if_true]
        rcases drain_alike pairing chunk.appendRequestQueue.items.length grown with
          ⟨aborted, otherAborted⟩ | ⟨after, last, otherLast, drained, otherDrained, later⟩
        · simp only [rehandle] at otherAborted ⊢
          simp [aborted, otherAborted]
        · simp only [rehandle] at otherDrained ⊢
          simp only [drained, otherDrained, Option.map_some]
          exact .inr ⟨_, last, otherLast, rfl, rfl, later⟩
      · simp only [reached, ne_eq, not_false_eq_true, if_true]
        exact .inr ⟨_, state, otherState, rfl, rfl, inStep⟩

end Chunk

end Pain.Manusya
