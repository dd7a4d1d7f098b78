import Pain.Base.UuidText
import Pain.Manusya.MemStore
import Pain.Manusya.Steps

/-!
# The references to an append request

An append beyond the write frontier allocates an `AppendRequest`. The waiting
call holds a reference to it, and a second one is taken for the timer, which is
never cancelled. The waiting call drops its reference when it returns. The
callback of the timer drops the other one after it has set the promise, but not
when it finds the promise set already: a request that was drained or rejected
before its timer is never deleted, and neither are its buffer and its reference
to the chunk.

The counts are kept beside the chunk server. The callback sets the promise under
the mutex of the chunk, so that the waiting call may return before the callback
drops its reference; the two are separate steps. `_use_count` is a plain `int` that
the code changes from several bthreads without a lock; here each change is one
step, and what a race between two changes would do is left out.
-/

namespace Pain.Manusya

/-- How far the timer of a request is: not run yet, between `set_value` and the release, or ended
with and without a release. -/
inductive TimerState where
  | armed
  | settled
  | released
  | skipped
deriving DecidableEq, Repr

/-- The callback of the timer has run to its end. -/
def TimerState.hasRun : TimerState → Bool
  | .armed | .settled => false
  | .released | .skipped => true

/-- An `AppendRequest`: its `use_count`, and how far the waiting call and the timer are. -/
structure RequestRefs where
  useCount : ℕ
  returned : Bool
  timer : TimerState
deriving DecidableEq, Repr

/-- The request of a call that has just started to wait: `rq` holds one reference, and
`intrusive_ptr_add_ref` takes another for the timer. -/
def RequestRefs.fresh : RequestRefs where
  useCount := 2
  returned := false
  timer := .armed

/-- `intrusive_ptr_release`. The request is deleted when the count reaches zero. -/
def RequestRefs.release (request : RequestRefs) : RequestRefs :=
  { request with useCount := request.useCount - 1 }

/-- The chunk server, and the request of every call that had to wait, by the chunk object and the
position of the call. -/
structure Requests (σ H : Type) where
  world : World σ H
  requests : ℕ × ℕ → Option RequestRefs

namespace Requests

variable {σ H : Type}

/-- A server without chunks. -/
def initial (start : σ) : Requests σ H where
  world := .initial start
  requests := fun _ => none

/-- The promise of a call. -/
def promise? (id : ℕ × ℕ) (state : Requests σ H) : Option (FutureState Status) :=
  ((state.world.chunks[id.1]?).bind (fun chunk => chunk.calls[id.2]?)).map AppendCall.promise

/-- Keep the references to a request. -/
def record (id : ℕ × ℕ) (request : RequestRefs) (state : Requests σ H) : Requests σ H :=
  { state with requests := Function.update state.requests id (some request) }

/-- The steps: a section of the server, the end of the callback of a timer that has set the
promise, and the return of a waiting call whose promise is set. -/
inductive Turn where
  | server (event : World.Event)
  | release (id : ℕ × ℕ)
  | wake (id : ℕ × ℕ)
deriving DecidableEq

/-- The position of the call that an append starts, if it has to wait. -/
def queued? (pointer offset : ℕ) (world : World σ H) : Option (ℕ × ℕ) :=
  match world.chunks[pointer]? with
  | none => none
  | some chunk =>
      if chunk.state ≠ .kSealed ∧ chunk.size < offset then some (pointer, chunk.calls.length)
      else none

/-- A section of the server. A timer runs once, and only for a request. -/
def serve (store : Store σ H) (text : UUID.Text) (event : World.Event) (state : Requests σ H) :
    Option (Requests σ H) :=
  match event with
  | .append pointer _ offset =>
      (state.world.step store text event).map (fun world =>
        match queued? pointer offset state.world with
        | none => { state with world := world }
        | some id => record id .fresh { state with world := world })
  | .timeout pointer call =>
      match state.requests (pointer, call), state.promise? (pointer, call) with
      | some ⟨useCount, returned, .armed⟩, some promise =>
          if promise.available then
            some (state.record (pointer, call) ⟨useCount, returned, .skipped⟩)
          else
            (state.world.step store text event).map (fun world =>
              record (pointer, call) ⟨useCount, returned, .settled⟩ { state with world := world })
      | _, _ => some state
  | event => (state.world.step store text event).map (fun world => { state with world := world })

/-- One turn: a section of the server, the release by the callback of a timer, or the return of a
waiting call. -/
def step (store : Store σ H) (text : UUID.Text) (state : Requests σ H) :
    Turn → Option (Requests σ H)
  | .server event => state.serve store text event
  | .release id =>
      match state.requests id with
      | some ⟨useCount, returned, .settled⟩ =>
          some (state.record id (RequestRefs.release ⟨useCount, returned, .released⟩))
      | _ => some state
  | .wake id =>
      match state.requests id, state.promise? id with
      | some ⟨useCount, false, timer⟩, some promise =>
          if promise.available then
            some (state.record id (RequestRefs.release ⟨useCount, true, timer⟩))
          else some state
      | _, _ => some state

/-- The state after a sequence of steps. -/
abbrev run (store : Store σ H) (text : UUID.Text) (state : Requests σ H) (turns : List Turn) :
    Option (Requests σ H) :=
  Lib.exec (step store text) state turns

/-- What a step can do to a request whose promise is known. -/
inductive Advances (promise : FutureState Status) : RequestRefs → RequestRefs → Prop where
  | skip {useCount : ℕ} {returned : Bool} (ready : promise.available = true) :
      Advances promise ⟨useCount, returned, .armed⟩ ⟨useCount, returned, .skipped⟩
  | settle {useCount : ℕ} {returned : Bool} (waits : promise.available = false) :
      Advances promise ⟨useCount, returned, .armed⟩ ⟨useCount, returned, .settled⟩
  | release {useCount : ℕ} {returned : Bool} :
      Advances promise ⟨useCount, returned, .settled⟩ ⟨useCount - 1, returned, .released⟩
  | wake {useCount : ℕ} {timer : TimerState} (ready : promise.available = true) :
      Advances promise ⟨useCount, false, timer⟩ ⟨useCount - 1, true, timer⟩

/-- What a step can do to the requests. -/
inductive Moved (state next : Requests σ H) : Prop where
  | quiet (same : next.requests = state.requests)
  | queued (id : ℕ × ℕ) (absent : state.promise? id = none) (started : (next.promise? id).isSome)
      (recorded : next.requests = Function.update state.requests id (some .fresh))
  | advanced (id : ℕ × ℕ) {promise : FutureState Status} {old new : RequestRefs}
      (promised : state.promise? id = some promise) (found : state.requests id = some old)
      (advances : Advances promise old new)
      (recorded : next.requests = Function.update state.requests id (some new))

/-- The invariant: the queues are tied to their promises, every request belongs to a call, and its
count is the number of the two references that have not been dropped. -/
structure Counted (state : Requests σ H) : Prop where
  waiting : state.world.Waiting
  calls : ∀ id request, state.requests id = some request → (state.promise? id).isSome
  count : ∀ id request, state.requests id = some request →
    request.useCount =
      (if request.returned then 0 else 1) + (if request.timer = .released then 0 else 1)

variable {store : Store σ H} {text : UUID.Text} {state next : Requests σ H}

/-- At the start there are no requests. -/
theorem initial_counted (start : σ) : (initial start : Requests σ H).Counted where
  waiting := World.initial_waiting start
  calls := by
    intro id request found
    simp [initial] at found
  count := by
    intro id request found
    simp [initial] at found

theorem promise?_isSome_of_evolves (evolves : state.world.Evolves next.world) (id : ℕ × ℕ)
    (known : (state.promise? id).isSome) : (next.promise? id).isSome := by
  rcases Option.isSome_iff_exists.mp known with ⟨promise, promised⟩
  simp only [promise?, Option.map_eq_some_iff, Option.bind_eq_some_iff] at promised
  rcases promised with ⟨entry, ⟨chunk, found, called⟩, -⟩
  rcases evolves id.1 chunk found with ⟨later, foundLater, chunkEvolves⟩
  rcases chunkEvolves id.2 entry called with ⟨promise', calledLater, -⟩
  simp [promise?, foundLater, calledLater]

/-- An append whose call has to wait adds the call at the end. -/
theorem queued_spec {pointer offset : ℕ} {buf : Bytes} {id : ℕ × ℕ} {world : World σ H}
    (waits : queued? pointer offset state.world = some id)
    (took : state.world.step store text (.append pointer buf offset) = some world) :
    state.promise? id = none ∧
      (promise? id { state with world := world } : Option (FutureState Status)).isSome := by
  unfold queued? at waits
  cases present : state.world.chunks[pointer]? with
  | none => simp [present] at waits
  | some chunk =>
      simp only [present] at waits
      split at waits
      · rename_i queues
        simp only [Option.some.injEq] at waits
        subst waits
        have enqueued : chunk.append store buf offset state.world.store =
            some (chunk.enqueue offset buf, state.world.store) := by
          simp [Chunk.append, Chunk.beginAppend, queues.1, queues.2.not_gt, queues.2.ne']
        simp only [World.step, present, enqueued, Option.map_some, Option.some.injEq] at took
        subst took
        constructor
        · simp [promise?, present]
        · simp [promise?, World.getElem?_put_self _ _ present, Chunk.enqueue]
      · cases waits

/-- What a step does: the server keeps its calls, and the requests move. -/
structure Proceeds (state next : Requests σ H) : Prop where
  waiting : next.world.Waiting
  evolves : state.world.Evolves next.world
  moved : state.Moved next

theorem Counted.idle (counted : state.Counted) : state.Proceeds state :=
  ⟨counted.waiting, .refl _, .quiet rfl⟩

/-- Every step of the chunk server succeeds, and the requests proceed. -/
theorem serve_spec (event : World.Event) (counted : state.Counted) :
    ∃ next, state.serve store text event = some next ∧ state.Proceeds next := by
  rcases World.step_spec store text counted.waiting event with ⟨world, took, stepped⟩
  have waiting := stepped.waiting counted.waiting
  have evolves := stepped.evolves counted.waiting
  have quiet : state.Proceeds { state with world := world } := ⟨waiting, evolves, .quiet rfl⟩
  cases event with
  | append pointer buf offset =>
      cases waits : queued? pointer offset state.world with
      | none => exact ⟨_, by simp only [serve, took, waits, Option.map_some], quiet⟩
      | some id =>
          rcases queued_spec waits took with ⟨absent, started⟩
          refine ⟨record id .fresh { state with world := world }, ?_, waiting, evolves,
            .queued id absent started rfl⟩
          simp only [serve, took, waits, Option.map_some]
  | timeout pointer call =>
      cases found : state.requests (pointer, call) with
      | none => exact ⟨state, by simp only [serve, found], counted.idle⟩
      | some request =>
          rcases request with ⟨useCount, returned, timer⟩
          cases promised : state.promise? (pointer, call) with
          | none => exact ⟨state, by simp only [serve, found, promised], counted.idle⟩
          | some promise =>
              cases timer with
              | armed =>
                  cases ready : promise.available with
                  | true =>
                      refine ⟨state.record (pointer, call) ⟨useCount, returned, .skipped⟩, ?_,
                        counted.waiting, .refl _, .advanced _ promised found (.skip ready) rfl⟩
                      simp only [serve, found, promised, ready, if_true]
                  | false =>
                      refine ⟨record (pointer, call) ⟨useCount, returned, .settled⟩
                        { state with world := world }, ?_, waiting, evolves,
                        .advanced _ promised found (.settle ready) rfl⟩
                      simp only [serve, found, promised, ready, Bool.false_eq_true, if_false, took,
                        Option.map_some]
              | settled => exact ⟨state, by simp only [serve, found, promised], counted.idle⟩
              | released => exact ⟨state, by simp only [serve, found, promised], counted.idle⟩
              | skipped => exact ⟨state, by simp only [serve, found, promised], counted.idle⟩
  | createChunk chunk uuid => exact ⟨_, by simp only [serve, took, Option.map_some], quiet⟩
  | removeChunk uuid => exact ⟨_, by simp only [serve, took, Option.map_some], quiet⟩
  | read pointer offset size buf =>
      exact ⟨_, by simp only [serve, took, Option.map_some], quiet⟩
  | queryAndSeal pointer length =>
      exact ⟨_, by simp only [serve, took, Option.map_some], quiet⟩

/-- No step aborts, and each is one of the moves. -/
theorem step_spec (turn : Turn) (counted : state.Counted) :
    ∃ next, state.step store text turn = some next ∧ state.Proceeds next := by
  cases turn with
  | server event => exact serve_spec event counted
  | release id =>
      cases found : state.requests id with
      | none => exact ⟨state, by simp only [step, found], counted.idle⟩
      | some request =>
          rcases request with ⟨useCount, returned, timer⟩
          rcases Option.isSome_iff_exists.mp (counted.calls id _ found) with ⟨promise, promised⟩
          cases timer with
          | settled =>
              refine ⟨state.record id (RequestRefs.release ⟨useCount, returned, .released⟩), ?_,
                counted.waiting, .refl _, .advanced id promised found .release rfl⟩
              simp only [step, found]
          | armed => exact ⟨state, by simp only [step, found], counted.idle⟩
          | released => exact ⟨state, by simp only [step, found], counted.idle⟩
          | skipped => exact ⟨state, by simp only [step, found], counted.idle⟩
  | wake id =>
      cases found : state.requests id with
      | none => exact ⟨state, by simp only [step, found], counted.idle⟩
      | some request =>
          rcases request with ⟨useCount, returned, timer⟩
          rcases Option.isSome_iff_exists.mp (counted.calls id _ found) with ⟨promise, promised⟩
          cases returned with
          | true => exact ⟨state, by simp only [step, found, promised], counted.idle⟩
          | false =>
              cases ready : promise.available with
              | false =>
                  refine ⟨state, ?_, counted.idle⟩
                  simp only [step, found, promised, ready, Bool.false_eq_true, if_false]
              | true =>
                  refine ⟨state.record id (RequestRefs.release ⟨useCount, true, timer⟩), ?_,
                    counted.waiting, .refl _, .advanced id promised found (.wake ready) rfl⟩
                  simp only [step, found, promised, ready, if_true]

theorem Counted.update {id : ℕ × ℕ} {request : RequestRefs} (counted : state.Counted)
    (waiting : next.world.Waiting)
    (known : ∀ other, (state.promise? other).isSome → (next.promise? other).isSome)
    (recorded : next.requests = Function.update state.requests id (some request))
    (called : (next.promise? id).isSome)
    (count : request.useCount =
      (if request.returned then 0 else 1) + (if request.timer = .released then 0 else 1)) :
    next.Counted := by
  have changed : ∀ other found, next.requests other = some found →
      other = id ∧ found = request ∨ state.requests other = some found := by
    intro other found foundAt
    rw [recorded] at foundAt
    by_cases same : other = id
    · rw [same, Function.update_self, Option.some.injEq] at foundAt
      exact .inl ⟨same, foundAt.symm⟩
    · rw [Function.update_of_ne same] at foundAt
      exact .inr foundAt
  refine ⟨waiting, ?_, ?_⟩
  · intro other found foundAt
    rcases changed other found foundAt with ⟨rfl, -⟩ | old
    · exact called
    · exact known other (counted.calls other found old)
  · intro other found foundAt
    rcases changed other found foundAt with ⟨-, rfl⟩ | old
    · exact count
    · exact counted.count other found old

/-- The counts stay right as the requests proceed. -/
theorem Proceeds.counted (proceeds : state.Proceeds next) (counted : state.Counted) :
    next.Counted := by
  have known := promise?_isSome_of_evolves proceeds.evolves
  cases proceeds.moved with
  | quiet same =>
      refine ⟨proceeds.waiting, ?_, ?_⟩
      · intro id request found
        rw [same] at found
        exact known id (counted.calls id request found)
      · intro id request found
        rw [same] at found
        exact counted.count id request found
  | queued id absent started recorded =>
      exact counted.update proceeds.waiting known recorded started rfl
  | advanced id promised present advances recorded =>
      refine counted.update proceeds.waiting known recorded (known id (by simp [promised])) ?_
      have before := counted.count id _ present
      cases advances <;> simp_all

/-- Every turn keeps the counts right. -/
theorem step_counted {turn : Turn} (counted : state.Counted)
    (took : state.step store text turn = some next) : next.Counted := by
  rcases step_spec turn counted with ⟨next', took', proceeds⟩
  rw [took, Option.some.injEq] at took'
  exact took' ▸ proceeds.counted counted

theorem queued?_fst {pointer offset : ℕ} {world : World σ H} {id : ℕ × ℕ}
    (waits : queued? pointer offset world = some id) : id.1 = pointer := by
  unfold queued? at waits
  split at waits
  · cases waits
  · split at waits
    · cases waits
      rfl
    · cases waits

theorem Counted.inside {id : ℕ × ℕ} {request : RequestRefs} (counted : state.Counted)
    (found : state.requests id = some request) : id.1 < state.world.chunks.length := by
  have known := counted.calls id request found
  by_contra outside
  simp [promise?, List.getElem?_eq_none (not_lt.mp outside)] at known

/-- A reference that has not been dropped is counted. -/
theorem Counted.positive {id : ℕ × ℕ} {request : RequestRefs} (counted : state.Counted)
    (found : state.requests id = some request)
    (keeps : request.returned = false ∨ request.timer ≠ .released) : 0 < request.useCount := by
  rw [counted.count id request found]
  rcases keeps with waits | unreleased
  · simp [waits]
  · simp [unreleased]

/-- The timer has run, or is running, and found the promise set or not. -/
def Found (ready : Bool) (id : ℕ × ℕ) (state : Requests σ H) : Prop :=
  ∃ request, state.requests id = some request ∧
    (if ready then request.timer = .skipped
      else request.timer = .settled ∨ request.timer = .released)

theorem Advances.found {promise : FutureState Status} {old new : RequestRefs} {ready : Bool}
    (advances : Advances promise old new)
    (found : if ready then old.timer = .skipped
      else old.timer = .settled ∨ old.timer = .released) :
    if ready then new.timer = .skipped else new.timer = .settled ∨ new.timer = .released := by
  cases advances with
  | skip => cases ready <;> simp at found
  | settle => cases ready <;> simp at found
  | release => cases ready <;> simp_all
  | wake => exact found

/-- What the timer found stays what it found. -/
theorem Proceeds.found {ready : Bool} {id : ℕ × ℕ} (proceeds : state.Proceeds next)
    (counted : state.Counted) (found : state.Found ready id) : next.Found ready id := by
  rcases found with ⟨request, present, timer⟩
  cases proceeds.moved with
  | quiet same => exact ⟨request, by rw [same]; exact present, timer⟩
  | queued other absent started recorded =>
      have different : id ≠ other := by
        rintro rfl
        have known := counted.calls id request present
        simp [absent] at known
      exact ⟨request, by rw [recorded, Function.update_of_ne different]; exact present, timer⟩
  | @advanced other promise old new promised foundOld advances recorded =>
      by_cases same : id = other
      · subst same
        rw [present, Option.some.injEq] at foundOld
        subst foundOld
        exact ⟨new, by rw [recorded, Function.update_self], advances.found timer⟩
      · exact ⟨request, by rw [recorded, Function.update_of_ne same]; exact present, timer⟩

/-- The counts are right in every state of a run. -/
theorem run_counted {start : Requests σ H} (counted : start.Counted) {turns : List Turn}
    {final : Requests σ H} (ran : start.run store text turns = some final) : final.Counted := by
  refine Lib.exec_invariant_of_progress Counted ?_ counted ran
  intro before turn holds
  rcases step_spec turn holds with ⟨after, took, proceeds⟩
  exact ⟨after, took, proceeds.counted holds⟩

/-- Whether the timer has found the promise set does not change any more. -/
theorem run_found {ready : Bool} {id : ℕ × ℕ} {start : Requests σ H} (counted : start.Counted)
    (found : start.Found ready id) {turns : List Turn} {final : Requests σ H}
    (ran : start.run store text turns = some final) : final.Found ready id := by
  have both : final.Counted ∧ final.Found ready id := by
    refine Lib.exec_invariant_of_progress (fun state => state.Counted ∧ state.Found ready id) ?_
      ⟨counted, found⟩ ran
    rintro before turn ⟨holds, foundBefore⟩
    rcases step_spec turn holds with ⟨after, took, proceeds⟩
    exact ⟨after, took, proceeds.counted holds, proceeds.found holds foundBefore⟩
  exact both.2

/-- The callback of an armed timer notes whether the promise is set. -/
theorem timeout_found {pointer call : ℕ} {request : RequestRefs} {promise : FutureState Status}
    (counted : state.Counted) (present : state.requests (pointer, call) = some request)
    (armed : request.timer = .armed) (promised : state.promise? (pointer, call) = some promise)
    (took : state.step store text (.server (.timeout pointer call)) = some next) :
    next.Found promise.available (pointer, call) := by
  rcases request with ⟨useCount, returned, timer⟩
  subst armed
  cases ready : promise.available with
  | true =>
      simp only [step, serve, present, promised, ready, if_true, Option.some.injEq] at took
      subst took
      exact ⟨⟨useCount, returned, .skipped⟩, by simp [record], rfl⟩
  | false =>
      rcases World.step_spec store text counted.waiting (.timeout pointer call) with
        ⟨world, stepped, -⟩
      simp only [step, serve, present, promised, ready, Bool.false_eq_true, if_false, stepped,
        Option.map_some, Option.some.injEq] at took
      subst took
      exact ⟨⟨useCount, returned, .settled⟩, by simp [record], Or.inl rfl⟩

theorem available_eq_false_iff {promise : FutureState Status} :
    promise.available = false ↔ promise = .future := by
  cases promise <;> simp [FutureState.available]

/-- The release of append requests. In every run of the chunk server, whatever drains, rejects or
times out its requests and in whichever order calls and timers end, no count drops to zero before
the waiting call has returned and the timer has run; and once both have, the count is zero if and
only if the promise was not set when the callback of the timer started. -/
theorem useCount_zero_iff (store : Store σ H) (text : UUID.Text) (start : σ) (turns : List Turn)
    (final : Requests σ H) (ran : (initial start).run store text turns = some final) :
    (∀ id request, final.requests id = some request → request.useCount = 0 →
      request.returned = true ∧ request.timer.hasRun = true) ∧
    ∀ (pointer call : ℕ) (first rest : List Turn) (middle : Requests σ H)
      (before after : RequestRefs),
      turns = first ++ .server (.timeout pointer call) :: rest →
        (initial start).run store text first = some middle →
          middle.requests (pointer, call) = some before → before.timer = .armed →
            final.requests (pointer, call) = some after → after.returned = true →
              after.timer.hasRun = true →
                (after.useCount = 0 ↔ middle.promise? (pointer, call) = some .future) := by
  have counted := run_counted (initial_counted start) ran
  constructor
  · intro id request found zero
    have count := counted.count id request found
    rw [zero] at count
    by_cases returned : request.returned = true
    · by_cases released : request.timer = .released
      · exact ⟨returned, by simp [released, TimerState.hasRun]⟩
      · simp [returned, released] at count
    · simp only [returned, Bool.false_eq_true, if_false] at count
      omega
  · intro pointer call first rest middle before after cut ranFirst present armed found returned
      hasRun
    have middleCounted := run_counted (initial_counted start) ranFirst
    rcases Option.isSome_iff_exists.mp (middleCounted.calls _ _ present) with ⟨promise, promised⟩
    simp only [cut, Lib.exec_append, ranFirst, Option.bind_some, Lib.exec_cons,
      Option.bind_eq_some_iff] at ran
    rcases ran with ⟨fired, took, ranRest⟩
    have noted := timeout_found middleCounted present armed promised took
    rcases run_found (step_counted middleCounted took) noted ranRest with
      ⟨request, foundAfter, timer⟩
    rw [found, Option.some.injEq] at foundAfter
    subst foundAfter
    have count := counted.count _ _ found
    rw [promised, Option.some.injEq, ← available_eq_false_iff, count, returned]
    cases ready : promise.available <;> cases ended : after.timer <;>
      simp_all [TimerState.hasRun]

/-- A request that times out; its call returns before the callback drops its reference. -/
theorem useCount_zero_timeout :
    ∃ final after, (initial ∅).run MemStore.store .canonical
        [.server (.createChunk .valid ⟨0, 1⟩), .server (.append 0 [2] 1), .server (.timeout 0 0),
          .wake (0, 0), .release (0, 0)] = some final ∧
      final.requests (0, 0) = some after ∧ after.useCount = 0 := by
  refine ⟨_, _, rfl, rfl, ?_⟩
  apply ((useCount_zero_iff MemStore.store .canonical ∅
    [.server (.createChunk .valid ⟨0, 1⟩), .server (.append 0 [2] 1), .server (.timeout 0 0),
      .wake (0, 0), .release (0, 0)] _ rfl).2 0 0
    [.server (.createChunk .valid ⟨0, 1⟩), .server (.append 0 [2] 1)]
    [.wake (0, 0), .release (0, 0)] _ .fresh _ rfl rfl rfl rfl rfl rfl rfl).mpr
  rfl

/-- A request that is drained before its timer: the call has returned, the timer has run, and the
request is still referenced. -/
theorem useCount_leaks :
    ∃ final after, (initial ∅).run MemStore.store .canonical
        [.server (.createChunk .valid ⟨0, 1⟩), .server (.append 0 [2] 1), .server (.append 0 [1] 0),
          .wake (0, 0), .server (.timeout 0 0)] = some final ∧
      final.requests (0, 0) = some after ∧ after.returned = true ∧
      after.timer.hasRun = true ∧ after.useCount = 1 :=
  ⟨_, _, rfl, rfl, rfl, rfl, rfl⟩

end Requests

end Pain.Manusya
