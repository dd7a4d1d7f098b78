import Pain.Manusya.AppendExactness
import Pain.Manusya.WriteFrontier

/-!
# The order of arrival of a contiguous batch

The calls of a batch whose ranges tile the space behind the write frontier may
enter `append` in any order. This file proves that the order does not matter.

At every moment the tiles fall into those that are written and the rest, which
begins at the frontier. A call that has arrived and is not written waits, linked
into the queue, and the frontier has not reached it. When all calls have
arrived, the first unwritten tile would have to wait at the frontier, so there
is none.
-/

namespace Pain.Manusya

open Lib (Extent)
open Lib.Extent (payload Tiles)

namespace Chunk

variable {σ H : Type}

/-- The calls of a batch enter `append` one after another. -/
def arrive (store : Store σ H) (arrival : List (Extent UInt8)) (chunk : Chunk H) (state : σ) :
    Option (Chunk H × σ) :=
  Lib.exec (fun (before : Chunk H × σ) (extent : Extent UInt8) =>
    before.1.append store extent.data extent.offset before.2) (chunk, state) arrival

/-- The entry of a call once the extents of `written` are in the file. -/
def outcome (written : List (Extent UInt8)) (extent : Extent UInt8) : AppendCall where
  offset := extent.offset
  buf := extent.data
  promise := if extent ∈ written then .result Status.OK else .future

theorem outcome_of_mem {written : List (Extent UInt8)} {extent : Extent UInt8}
    (member : extent ∈ written) :
    outcome written extent = ⟨extent.offset, extent.data, .result Status.OK⟩ := by
  simp [outcome, member]

theorem outcome_of_not_mem {written : List (Extent UInt8)} {extent : Extent UInt8}
    (missing : extent ∉ written) :
    outcome written extent = ⟨extent.offset, extent.data, .future⟩ := by
  simp [outcome, missing]

theorem outcome_snoc {written : List (Extent UInt8)} {extent other : Extent UInt8}
    (different : other ≠ extent) : outcome (written ++ [extent]) other = outcome written other := by
  simp [outcome, different]

/-- How far a batch has come: `seen` have arrived, `written` are in the file, `rest` are not, and
the call of `inFlight` is draining the queue. `base` and `old` are the chunk and the bytes of its
file before the batch. -/
structure Progress {store : Store σ H} (spec : store.Spec) (base : Chunk H) (old : Bytes)
    (tiles seen inFlight written rest : List (Extent UInt8)) (chunk : Chunk H) (state : σ) :
    Prop where
  split : tiles = written ++ rest
  size : chunk.size = base.size + (payload written).length
  uuid : chunk.uuid = base.uuid
  chunkState : chunk.state = base.state
  fh : chunk.fh = base.fh
  calls : chunk.calls = base.calls ++ seen.map (outcome written)
  waiting : chunk.Waiting
  later : ∀ rq ∈ chunk.appendRequestQueue.items, base.calls.length ≤ rq.call
  linked : ∀ extent ∈ seen, extent ∉ written →
    ∃ rq ∈ chunk.appendRequestQueue.items, Extent.mk rq.offset rq.buf = extent
  arrived : ∀ extent ∈ written, extent ∈ seen ∨ extent ∈ inFlight
  held : spec.contents state base.fh = some (old ++ payload written)

namespace Progress

variable {store : Store σ H} {spec : store.Spec} {base chunk : Chunk H} {old : Bytes}
  {tiles seen inFlight written rest : List (Extent UInt8)} {stop : ℕ} {state : σ}

/-- What is still to be written is a tiling from the size of the chunk on. -/
theorem rest_tiles (progress : Progress spec base old tiles seen inFlight written rest chunk state)
    (tiled : Tiles base.size tiles stop) : Tiles chunk.size rest stop := by
  simp only [progress.split, Lib.Extent.tiles_append] at tiled
  rcases tiled with ⟨middle, front, back⟩
  simp only [progress.size, ← front.stop_eq]
  exact back

theorem rest_eq_cons
    (progress : Progress spec base old tiles seen inFlight written rest chunk state)
    (tiled : Tiles base.size tiles stop) (nonempty : ∀ extent ∈ tiles, extent.data ≠ [])
    {extent : Extent UInt8} (member : extent ∈ tiles) (unwritten : extent ∉ written)
    (reached : extent.offset = chunk.size) : ∃ rest', rest = extent :: rest' := by
  have restTiles := progress.rest_tiles tiled
  have split := progress.split
  have inRest : extent ∈ rest := by
    simp only [split] at member
    exact (List.mem_append.mp member).resolve_left unwritten
  cases rest with
  | nil => simp at inRest
  | cons head rest' =>
      have headMem : head ∈ tiles := by simp [split]
      have same := tiled.eq_of_offset_eq nonempty headMem member
        (restTiles.1.trans reached.symm)
      exact ⟨rest', by rw [same]⟩

theorem size_le_offset
    (progress : Progress spec base old tiles seen inFlight written rest chunk state)
    (tiled : Tiles base.size tiles stop) {extent : Extent UInt8} (member : extent ∈ tiles)
    (unwritten : extent ∉ written) : chunk.size ≤ extent.offset := by
  simp only [progress.split] at member
  exact (progress.rest_tiles tiled).start_le_offset
    ((List.mem_append.mp member).resolve_left unwritten)

theorem queued (progress : Progress spec base old tiles seen inFlight written rest chunk state)
    {rq : AppendRequest} (member : rq ∈ chunk.appendRequestQueue.items) :
    seen[rq.call - base.calls.length]? = some ⟨rq.offset, rq.buf⟩ ∧
      Extent.mk rq.offset rq.buf ∉ written := by
  have found := progress.waiting rq member
  rw [progress.calls, List.getElem?_append_right (progress.later rq member), List.getElem?_map,
    Option.map_eq_some_iff] at found
  rcases found with ⟨extent, seenAt, same⟩
  by_cases done : extent ∈ written
  · simp only [outcome_of_mem done] at same
    simp at same
  · simp only [outcome_of_not_mem done, AppendCall.mk.injEq] at same
    rcases same with ⟨sameOffset, sameBuf, -⟩
    have sameExtent : extent = ⟨rq.offset, rq.buf⟩ := by
      cases extent
      simp_all
    exact ⟨sameExtent ▸ seenAt, sameExtent ▸ done⟩

theorem release_calls_eq
    (progress : Progress spec base old tiles seen inFlight written rest chunk state)
    (distinct : seen.Nodup) {rq : AppendRequest} (member : rq ∈ chunk.appendRequestQueue.items) :
    (chunk.release rq.call Status.OK).calls =
      base.calls ++ seen.map (outcome (written ++ [⟨rq.offset, rq.buf⟩])) := by
  have later := progress.later rq member
  rcases progress.queued member with ⟨seenAt, -⟩
  apply List.ext_getElem?
  intro index
  have unlinked : (chunk.unlink rq.call).calls[index]? = chunk.calls[index]? := rfl
  simp only [Chunk.release, getElem?_setPromise, unlinked, progress.calls]
  rcases lt_or_ge index base.calls.length with before | after
  · rw [List.getElem?_append_left before, List.getElem?_append_left before]
    have other : rq.call ≠ index := by omega
    simp [other]
  · rw [List.getElem?_append_right after, List.getElem?_append_right after, List.getElem?_map,
      List.getElem?_map, Option.map_map]
    cases found : seen[index - base.calls.length]? with
    | none => rfl
    | some extent =>
        by_cases same : rq.call = index
        · subst same
          simp only [seenAt, Option.some.injEq] at found
          subst found
          simp [outcome]
        · have different : extent ≠ ⟨rq.offset, rq.buf⟩ := by
            rintro rfl
            have sameIndex := (List.getElem?_inj (List.getElem?_eq_some_iff.mp found).1
              distinct).mp (found.trans seenAt.symm)
            omega
          simp [same, outcome_snoc different]

/-- A turn of the drain loop writes the next extent of the tiling. -/
theorem drainTurn (succeeds : spec.AppendSucceeds) (tiled : Tiles base.size tiles stop)
    (nonempty : ∀ extent ∈ tiles, extent.data ≠ []) (distinct : seen.Nodup)
    (inBatch : ∀ extent ∈ seen, extent ∈ tiles) {before after : Chunk H × σ}
    (progress : Progress spec base old tiles seen inFlight written rest before.1 before.2)
    (turn : DrainTurn store before after) :
    ∃ extent rest', rest = extent :: rest' ∧
      Progress spec base old tiles seen inFlight (written ++ [extent]) rest' after.1 after.2 := by
  cases turn with
  | @reject chunk state rq queue front behind =>
      have member : rq ∈ chunk.appendRequestQueue.items := by simp [front]
      rcases progress.queued member with ⟨seenAt, unwritten⟩
      have ahead := progress.size_le_offset tiled (inBatch _ (List.mem_of_getElem? seenAt))
        unwritten
      simp only at ahead
      omega
  | @write chunk state rq queue front reached wrote =>
      have member : rq ∈ chunk.appendRequestQueue.items := by simp [front]
      rcases progress.queued member with ⟨seenAt, unwritten⟩
      rcases progress.rest_eq_cons tiled nonempty (inBatch _ (List.mem_of_getElem? seenAt))
        unwritten reached with ⟨rest', rfl⟩
      have held := progress.held
      simp only [← progress.fh] at held
      have grown : ({ chunk with size := chunk.size + rq.buf.length } : Chunk H).Waiting :=
        progress.waiting
      refine ⟨_, rest', rfl, ?_⟩
      exact {
        split := by simp [progress.split]
        size := by
          have size := progress.size
          simp only [release, setPromise, unlink, Lib.Extent.payload_append,
            Lib.Extent.payload_cons, Lib.Extent.payload_nil, List.append_nil,
            List.length_append] at size ⊢
          omega
        uuid := progress.uuid
        chunkState := progress.chunkState
        fh := progress.fh
        calls := progress.release_calls_eq distinct member
        waiting := grown.release rq.call Status.OK
        later := fun other otherMem => progress.later other (mem_unlink_items.mp otherMem).1
        linked := by
          intro extent extentSeen stillWaits
          simp only [List.mem_append, List.mem_singleton, not_or] at stillWaits
          rcases progress.linked extent extentSeen stillWaits.1 with ⟨other, otherMem, same⟩
          refine ⟨other, mem_unlink_items.mpr ⟨otherMem, ?_⟩, same⟩
          intro sameCall
          have otherSeen := (progress.queued otherMem).1
          simp only [sameCall, seenAt, same, Option.some.injEq] at otherSeen
          exact stillWaits.2 otherSeen.symm
        arrived := by
          intro extent extentMem
          rcases List.mem_append.mp extentMem with earlier | last
          · exact progress.arrived extent earlier
          · simp only [List.mem_singleton.mp last]
            exact Or.inl (List.mem_of_getElem? seenAt)
        held := by
          have sameHandle : chunk.fh = base.fh := progress.fh
          have extended := spec.append_ok rq.offset rq.buf held wrote
          simp only [sameHandle] at extended
          simpa [sameHandle] using extended }
  | @fail chunk state rq queue front reached failed =>
      have held := progress.held
      simp only [← progress.fh] at held
      exact absurd (succeeds rq.offset rq.buf held) failed

/-- The drain loop writes tiles in order and keeps the ones already written. -/
theorem drainTurns (succeeds : spec.AppendSucceeds) (tiled : Tiles base.size tiles stop)
    (nonempty : ∀ extent ∈ tiles, extent.data ≠ []) (distinct : seen.Nodup)
    (inBatch : ∀ extent ∈ seen, extent ∈ tiles) {before after : Chunk H × σ}
    (progress : Progress spec base old tiles seen inFlight written rest before.1 before.2)
    (turns : Relation.ReflTransGen (DrainTurn store) before after) :
    ∃ written' rest', written ⊆ written' ∧
      Progress spec base old tiles seen inFlight written' rest' after.1 after.2 := by
  induction turns with
  | refl => exact ⟨written, rest, List.Subset.refl _, progress⟩
  | tail _ turn ih =>
      rcases ih with ⟨middle, rest', kept, middleProgress⟩
      rcases middleProgress.drainTurn succeeds tiled nonempty distinct inBatch turn with
        ⟨extent, rest'', -, progress'⟩
      exact ⟨middle ++ [extent], rest'', List.Subset.trans kept (List.subset_append_left _ _),
        progress'⟩

/-- A tile beyond the frontier arrives and waits. -/
theorem enqueue (tiled : Tiles base.size tiles stop)
    (nonempty : ∀ extent ∈ tiles, extent.data ≠ [])
    (inBatch : ∀ extent ∈ seen, extent ∈ tiles)
    (progress : Progress spec base old tiles seen [] written rest chunk state)
    {extent : Extent UInt8} (member : extent ∈ tiles) (unseen : extent ∉ seen)
    (unwritten : extent ∉ written) :
    Progress spec base old tiles (seen ++ [extent]) [] written rest
      (chunk.enqueue extent.offset extent.data) state where
  split := progress.split
  size := progress.size
  uuid := progress.uuid
  chunkState := progress.chunkState
  fh := progress.fh
  calls := by simp [Chunk.enqueue, progress.calls, outcome_of_not_mem unwritten]
  waiting := progress.waiting.enqueue extent.offset extent.data
  later := by
    intro rq rqMem
    rcases Lib.IntrusiveSet.mem_insertList rqMem with rfl | present
    · simp [progress.calls]
    · exact progress.later rq present
  linked := by
    intro other otherSeen stillWaits
    rcases List.mem_append.mp otherSeen with earlier | last
    · rcases progress.linked other earlier stillWaits with ⟨rq, rqMem, same⟩
      exact ⟨rq, Lib.IntrusiveSet.mem_insertList_of_mem _ rqMem, same⟩
    · refine ⟨_, Lib.IntrusiveSet.mem_insertList_self ?_, (List.mem_singleton.mp last).symm⟩
      intro rq rqMem sameOffset
      have rqSeen := List.mem_of_getElem? (progress.queued rqMem).1
      have same := tiled.eq_of_offset_eq nonempty (inBatch _ rqSeen) member sameOffset
      exact unseen (same ▸ rqSeen)
  arrived := fun other isWritten =>
    Or.inl (List.mem_append_left _ ((progress.arrived other isWritten).resolve_right (by simp)))
  held := progress.held

/-- A tile at the frontier arrives and is written; its call is in flight until the queue has been
drained. -/
theorem write {extent : Extent UInt8}
    (progress : Progress spec base old tiles seen [] written (extent :: rest) chunk state)
    (unseen : extent ∉ seen)
    (ok : (store.append chunk.fh extent.offset extent.data state).1 = Status.OK) :
    Progress spec base old tiles seen [extent] (written ++ [extent]) rest
      { chunk with size := chunk.size + extent.data.length }
      (store.append chunk.fh extent.offset extent.data state).2 where
  split := by simp [progress.split]
  size := by
    simp only [Lib.Extent.payload_append, Lib.Extent.payload_cons, Lib.Extent.payload_nil,
      List.append_nil, List.length_append, progress.size]
    omega
  uuid := progress.uuid
  chunkState := progress.chunkState
  fh := progress.fh
  calls := by
    simp only [progress.calls, List.append_cancel_left_eq]
    apply List.map_congr_left
    intro other otherSeen
    exact (outcome_snoc (fun same : other = extent => unseen (same ▸ otherSeen))).symm
  waiting := progress.waiting
  later := progress.later
  linked := fun other otherSeen stillWaits =>
    progress.linked other otherSeen (fun isWritten => stillWaits (by simp [isWritten]))
  arrived := by
    intro other otherMem
    rcases List.mem_append.mp otherMem with earlier | last
    · exact Or.inl ((progress.arrived other earlier).resolve_right (by simp))
    · exact Or.inr last
  held := by
    have held := progress.held
    simp only [← progress.fh] at held
    have extended := spec.append_ok extent.offset extent.data held ok
    simpa [progress.fh] using extended

/-- The call in flight returns. -/
theorem answer {extent : Extent UInt8}
    (progress : Progress spec base old tiles seen [extent] written rest chunk state)
    (isWritten : extent ∈ written) :
    Progress spec base old tiles (seen ++ [extent]) [] written rest
      (chunk.answer extent.offset extent.data Status.OK) state where
  split := progress.split
  size := progress.size
  uuid := progress.uuid
  chunkState := progress.chunkState
  fh := progress.fh
  calls := by simp [Chunk.answer, progress.calls, outcome_of_mem isWritten]
  waiting := progress.waiting.answer extent.offset extent.data Status.OK
  later := progress.later
  linked := by
    intro other otherSeen stillWaits
    rcases List.mem_append.mp otherSeen with earlier | last
    · exact progress.linked other earlier stillWaits
    · exact absurd (List.mem_singleton.mp last ▸ isWritten) stillWaits
  arrived := by
    intro other otherMem
    rcases progress.arrived other otherMem with earlier | last
    · exact Or.inl (List.mem_append_left _ earlier)
    · exact Or.inl (List.mem_append_right _ last)
  held := progress.held

/-- An extent that arrives is written, or waits until the frontier reaches it. -/
theorem arrive (succeeds : spec.AppendSucceeds) (tiled : Tiles base.size tiles stop)
    (nonempty : ∀ extent ∈ tiles, extent.data ≠ []) (isOpen : base.state ≠ .kSealed)
    (distinct : seen.Nodup) (inBatch : ∀ extent ∈ seen, extent ∈ tiles)
    (progress : Progress spec base old tiles seen [] written rest chunk state)
    (drained : chunk.Drained) {extent : Extent UInt8} (member : extent ∈ tiles)
    (unseen : extent ∉ seen) :
    ∃ after written' rest', chunk.append store extent.data extent.offset state = some after ∧
      Progress spec base old tiles (seen ++ [extent]) [] written' rest' after.1 after.2 ∧
      after.1.Drained := by
  have unwritten : extent ∉ written := fun isWritten =>
    unseen ((progress.arrived extent isWritten).resolve_right (by simp))
  rcases chunk.append_spec store extent.data extent.offset state progress.waiting with
    ⟨after, ran, appended⟩
  cases appended with
  | refused notOk reason =>
      rcases reason with isSealed | behind
      · exact absurd (progress.chunkState ▸ isSealed) isOpen
      · exact absurd (progress.size_le_offset tiled member unwritten) (by omega)
  | queued unsealed beyond =>
      exact ⟨_, written, rest, ran,
        progress.enqueue tiled nonempty inBatch member unseen unwritten,
        drained.enqueue beyond extent.data⟩
  | failed unsealed reached notOk =>
      have held := progress.held
      simp only [← progress.fh] at held
      exact absurd (succeeds extent.offset extent.data held) notOk
  | @written unsealed reached ok after drains drained' =>
      rcases progress.rest_eq_cons tiled nonempty member unwritten reached with ⟨rest', rfl⟩
      rcases (progress.write unseen ok).drainTurns succeeds tiled nonempty distinct inBatch
        drains with ⟨written', rest'', kept, ended⟩
      have isWritten : extent ∈ written' := kept (by simp)
      exact ⟨_, written', rest'', ran, ended.answer isWritten, drained'⟩

/-- When every call has arrived and the queue is drained, every tile is written. -/
theorem rest_eq_nil (progress : Progress spec base old tiles seen [] written rest chunk state)
    (tiled : Tiles base.size tiles stop) (nonempty : ∀ extent ∈ tiles, extent.data ≠ [])
    (drained : chunk.Drained) (all : ∀ extent ∈ tiles, extent ∈ seen) : rest = [] := by
  have restTiles := progress.rest_tiles tiled
  have split := progress.split
  cases rest with
  | nil => rfl
  | cons head rest' =>
      have distinct : tiles.Nodup :=
        (tiled.pairwise_offset nonempty).imp (fun before same => by simp [same] at before)
      have unwritten : head ∉ written := by
        simp only [split] at distinct
        exact fun isWritten => (List.disjoint_of_nodup_append distinct) isWritten List.mem_cons_self
      rcases progress.linked head (all head (by simp [split])) unwritten with ⟨rq, rqMem, same⟩
      have beyond := drained rq rqMem
      have here := restTiles.1
      rw [← same] at here
      simp only at here
      omega

/-- However many extents have arrived, the tiling is written up to the first gap. -/
theorem arriveAll (succeeds : spec.AppendSucceeds) (tiled : Tiles base.size tiles stop)
    (nonempty : ∀ extent ∈ tiles, extent.data ≠ []) (isOpen : base.state ≠ .kSealed)
    {coming : List (Extent UInt8)} (distinct : (seen ++ coming).Nodup)
    (inBatch : ∀ extent ∈ seen ++ coming, extent ∈ tiles)
    (progress : Progress spec base old tiles seen [] written rest chunk state)
    (drained : chunk.Drained) :
    ∃ final state' written' rest', Chunk.arrive store coming chunk state = some (final, state') ∧
      Progress spec base old tiles (seen ++ coming) [] written' rest' final state' ∧
      final.Drained := by
  induction coming generalizing seen written rest chunk state with
  | nil => exact ⟨chunk, state, written, rest, rfl, by simpa using progress, drained⟩
  | cons extent coming ih =>
      have unseen : extent ∉ seen := fun earlier =>
        List.disjoint_of_nodup_append distinct earlier List.mem_cons_self
      rcases progress.arrive succeeds tiled nonempty isOpen
        (List.Nodup.of_append_left distinct)
        (fun other earlier => inBatch other (List.mem_append_left _ earlier)) drained
        (inBatch extent (by simp)) unseen with ⟨after, written', rest', ran, progress', drained'⟩
      have regroup : seen ++ extent :: coming = seen ++ [extent] ++ coming := by simp
      simp only [regroup] at distinct inBatch ⊢
      rcases ih distinct inBatch progress' drained' with
        ⟨final, state', written'', rest'', ranRest, ended⟩
      refine ⟨final, state', written'', rest'', ?_, ended⟩
      simp only [Chunk.arrive, Lib.exec_cons, ran]
      exact ranRest

end Progress

/-- The chunk after a contiguous batch. Only the history of calls remembers the order in which the
calls arrived. -/
def afterBatch (tiles arrival : List (Extent UInt8)) (chunk : Chunk H) : Chunk H :=
  { chunk with
    size := chunk.size + (payload tiles).length
    calls := chunk.calls ++ arrival.map (outcome tiles) }

theorem arrive_eq {store : Store σ H} (spec : store.Spec) (succeeds : spec.AppendSucceeds)
    {chunk : Chunk H} {state : σ} {old : Bytes} (isOpen : chunk.state = .kOpen)
    (empty : chunk.appendRequestQueue = ∅) (held : spec.contents state chunk.fh = some old)
    {tiles arrival : List (Extent UInt8)} {stop : ℕ} (tiled : Tiles chunk.size tiles stop)
    (nonempty : ∀ extent ∈ tiles, extent.data ≠ []) (perm : arrival.Perm tiles) :
    ∃ state', chunk.arrive store arrival state = some (chunk.afterBatch tiles arrival, state') ∧
      spec.contents state' chunk.fh = some (old ++ payload tiles) := by
  have start : Progress spec chunk old tiles [] [] [] tiles chunk state := {
    split := rfl
    size := rfl
    uuid := rfl
    chunkState := rfl
    fh := rfl
    calls := by simp
    waiting := by simp [Waiting, empty]
    later := by simp [empty]
    linked := by simp
    arrived := by simp
    held := by simpa using held }
  have tilesDistinct : tiles.Nodup :=
    (tiled.pairwise_offset nonempty).imp (fun before same => by simp [same] at before)
  rcases start.arriveAll succeeds tiled nonempty (by simp [isOpen])
    (by simpa using perm.nodup_iff.mpr tilesDistinct)
    (fun extent member => perm.mem_iff.mp (by simpa using member)) (by simp [Drained, empty]) with
    ⟨final, state', written, rest, ran, progress, drained⟩
  have ended := progress.rest_eq_nil tiled nonempty drained
    (fun extent member => by simpa using perm.mem_iff.mpr member)
  subst ended
  have all : tiles = written := by simpa using progress.split
  subst all
  have noneQueued : final.appendRequestQueue = ∅ := by
    apply Lib.IntrusiveSet.ext
    apply List.eq_nil_iff_forall_not_mem.mpr
    intro rq member
    rcases progress.queued member with ⟨seenAt, unwritten⟩
    exact unwritten (perm.mem_iff.mp (by simpa using List.mem_of_getElem? seenAt))
  refine ⟨state', ?_, progress.held⟩
  simp only [ran]
  have same : final = chunk.afterBatch tiles arrival :=
    Chunk.ext progress.uuid progress.size progress.chunkState progress.fh
      (noneQueued.trans empty.symm) (by simpa [afterBatch] using progress.calls)
  simp only [same]

/-- The order of arrival does not matter. Let the ranges of a batch of appends with nonempty
buffers tile the space behind the frontier of an open chunk whose queue is empty, and let the
store's appends succeed. In whatever order the calls enter `append`, every outcome is `OK`, the
queue is empty, the size has grown by the batch, and the file holds its old bytes and the buffers
in offset order. A second order gives the same chunk, up to the order of its calls, and the same
file. -/
theorem arrival_order_irrelevant {store : Store σ H} (spec : store.Spec)
    (succeeds : spec.AppendSucceeds) {chunk : Chunk H} {state : σ} {old : Bytes}
    (isOpen : chunk.state = .kOpen) (empty : chunk.appendRequestQueue = ∅)
    (held : spec.contents state chunk.fh = some old) {tiles : List (Extent UInt8)} {length : ℕ}
    (tiled : Tiles chunk.size tiles (chunk.size + length))
    (nonempty : ∀ extent ∈ tiles, extent.data ≠ []) {arrival : List (Extent UInt8)}
    (perm : arrival.Perm tiles) :
    ∃ final state', chunk.arrive store arrival state = some (final, state') ∧
      final.calls = chunk.calls ++ arrival.map (fun extent =>
        ⟨extent.offset, extent.data, .result Status.OK⟩) ∧
      final.appendRequestQueue = ∅ ∧ final.size = chunk.size + length ∧
      spec.contents state' chunk.fh = some (old ++ payload tiles) ∧
      ∀ other : List (Extent UInt8), other.Perm tiles →
        ∃ final' state'', chunk.arrive store other state = some (final', state'') ∧
          { final' with calls := final.calls } = final ∧ final'.calls.Perm final.calls ∧
          spec.contents state'' chunk.fh = spec.contents state' chunk.fh := by
  rcases arrive_eq spec succeeds isOpen empty held tiled nonempty perm with ⟨state', ran, holds⟩
  refine ⟨_, state', ran, ?_, empty, ?_, holds, ?_⟩
  · have acknowledged : arrival.map (outcome tiles) = arrival.map (fun extent =>
        ⟨extent.offset, extent.data, .result Status.OK⟩) := by
      apply List.map_congr_left
      intro extent member
      exact outcome_of_mem (perm.mem_iff.mp member)
    simp only [afterBatch, acknowledged]
  · have stop := tiled.stop_eq
    simp only [afterBatch]
    omega
  · intro other otherPerm
    rcases arrive_eq spec succeeds isOpen empty held tiled nonempty otherPerm with
      ⟨state'', ran', holds'⟩
    refine ⟨_, state'', ran', rfl, ?_, by rw [holds, holds']⟩
    exact ((otherPerm.trans perm.symm).map _).append_left _

/-- Three appends to a chunk of one byte on an in-memory store, the last of them first. -/
theorem arrival_order_irrelevant_memStore :
    ∃ final state', (Chunk.opened ⟨0, 1⟩ (UUID.Text.canonical.str ⟨0, 1⟩) 1).arrive MemStore.store
        [⟨4, [5]⟩, ⟨1, [2]⟩, ⟨2, [3, 4]⟩]
        ((∅ : MemStore).insert (UUID.Text.canonical.str ⟨0, 1⟩) [1]) = some (final, state') ∧
      final.size = 5 ∧
      MemStore.spec.contents state' (UUID.Text.canonical.str ⟨0, 1⟩) = some [1, 2, 3, 4, 5] := by
  rcases arrival_order_irrelevant MemStore.spec MemStore.spec_appendSucceeds
    (show (Chunk.opened ⟨0, 1⟩ (UUID.Text.canonical.str ⟨0, 1⟩) 1).state = .kOpen from rfl) rfl
    (show MemStore.spec.contents ((∅ : MemStore).insert (UUID.Text.canonical.str ⟨0, 1⟩) [1])
      (UUID.Text.canonical.str ⟨0, 1⟩) = some [1] by simp [MemStore.spec])
    (show Tiles 1 [⟨1, [2]⟩, ⟨2, [3, 4]⟩, ⟨4, [5]⟩] (1 + 4) by simp [Tiles]) (by simp)
    (show List.Perm [⟨4, [5]⟩, ⟨1, [2]⟩, ⟨2, [3, 4]⟩] _ by decide) with
    ⟨final, state', ran, -, -, size, holds, -⟩
  exact ⟨final, state', ran, size, holds⟩

end Chunk

end Pain.Manusya
